import Sfmf.Lib.Exec

/-!
# A stack of nested entries

Entries are pushed one after another. What a new entry is not inside of is popped
first, and in the end everything is popped. The test may fail.

* `next_cases`: what can happen from one moment of a run to the next.
* `run_eq`: the pop function gets the entries of the last moment, in this order.
* `push_reached`, `pushes_reached`: what the pushes have done after any number of them is a moment of the run.
* `Reached.nested`: at every moment each entry is around all above it, and every entry
  is popped, on the stack or still to come.
* `Reached.total`, `reaches_end`: a run of distinct entries has no failed test, and ends.
* `Reached.inner_first`: if what is inside an entry follows it without a gap, an entry
  is popped after all that is inside.
-/

namespace Sfmf.NestedStack

variable {ε σ : Type} (test : ε → ε → Exec Bool) (pop : σ → ε → Exec σ)

/-- Push an entry on a stack with the top in front: pop until it is inside of the top. -/
def push (x : ε) : List ε → σ → Exec (List ε × σ)
  | [], s => return ([x], s)
  | top :: stack, s => do
    let inside ← test top x
    if inside then return (x :: top :: stack, s)
    else do
      let s ← pop s top
      push x stack s

/-- Push entries on a stack, and pop all that is left. -/
def runFrom (l : List ε) (stack : List ε) (s : σ) : Exec σ := do
  let p ← l.foldlM (fun (p : List ε × σ) x => push test pop x p.1 p.2) (stack, s)
  p.1.foldlM pop p.2

/-- A whole run. -/
def run (l : List ε) (s : σ) : Exec σ := runFrom test pop l [] s

/-- A moment of a run. -/
structure Moment (ε : Type) where
  /-- with the top in front -/
  stack : List ε
  /-- what the pop function was handed, in this order -/
  popped : List ε
  /-- what is still to be pushed -/
  todo : List ε

/-- An entry is put on the stack. -/
def Moment.pushed (s : Moment ε) (x : ε) (todo : List ε) : Moment ε := ⟨x :: s.stack, s.popped, todo⟩

/-- The top is taken off. -/
def Moment.taken (s : Moment ε) (top : ε) (stack : List ε) : Moment ε := ⟨stack, s.popped ++ [top], s.todo⟩

/-- The next moment of a run: one round of a loop that pops, or the end of a push. -/
def next (s : Moment ε) : Exec (Option (Moment ε)) :=
  match s.todo, s.stack with
  | [], [] => return none
  | [], top :: stack => return some (s.taken top stack)
  | x :: todo, [] => return some (s.pushed x todo)
  | x :: todo, top :: stack => do
    let inside ← test top x
    if inside then return some (s.pushed x todo) else return some (s.taken top stack)

/-- The moments of the run of a list. -/
inductive Reached (l : List ε) : Moment ε → Prop where
  | start : Reached l ⟨[], [], l⟩
  | step {s s' : Moment ε} : Reached l s → next test s = .ok (some s') → Reached l s'

variable {test pop}

/-- **What can happen next**: an entry is pushed on a top it is inside of, or a top is popped that the next entry is
not inside of. -/
theorem next_cases {s s' : Moment ε} (h : next test s = .ok (some s')) :
    (∃ x todo, s.todo = x :: todo ∧ (∀ top ∈ s.stack.head?, test top x = .ok true) ∧ s' = s.pushed x todo) ∨
    (∃ top stack, s.stack = top :: stack ∧ (∀ x ∈ s.todo.head?, test top x = .ok false) ∧ s' = s.taken top stack) := by
  obtain ⟨stack, popped, todo⟩ := s
  cases todo with
  | nil =>
    cases stack with
    | nil => cases h
    | cons top stack =>
      cases h
      exact .inr ⟨top, stack, rfl, by simp, rfl⟩
  | cons x todo =>
    cases stack with
    | nil =>
      cases h
      exact .inl ⟨x, todo, rfl, by simp, rfl⟩
    | cons top stack =>
      obtain ⟨inside, hinside, h⟩ := bind_ok.1 h
      cases inside with
      | true =>
        cases h
        exact .inl ⟨x, todo, rfl, by simpa using hinside, rfl⟩
      | false =>
        cases h
        exact .inr ⟨top, stack, rfl, by simpa using hinside, rfl⟩

theorem next_none {s : Moment ε} (h : next test s = .ok none) : s.stack = [] ∧ s.todo = [] := by
  obtain ⟨stack, popped, todo⟩ := s
  cases todo with
  | nil =>
    cases stack with
    | nil => exact ⟨rfl, rfl⟩
    | cons top stack => cases h
  | cons x todo =>
    cases stack with
    | nil => cases h
    | cons top stack =>
      obtain ⟨inside, _, h⟩ := bind_ok.1 h
      cases inside <;> cases h

/-! ## What the pop function is handed -/

theorem runFrom_pushed {s : Moment ε} {x : ε} {todo : List ε} {st : σ} (ht : s.todo = x :: todo)
    (htop : ∀ top ∈ s.stack.head?, test top x = .ok true) :
    runFrom test pop s.todo s.stack st = runFrom test pop (s.pushed x todo).todo (s.pushed x todo).stack st := by
  have hpush : push test pop x s.stack st = .ok (x :: s.stack, st) := by
    cases hs : s.stack with
    | nil => rfl
    | cons top stack =>
      rw [push, htop top (by rw [hs]; rfl), ok_bind, if_pos rfl]
      rfl
  unfold runFrom
  rw [ht, List.foldlM_cons, hpush, ok_bind]
  rfl

theorem runFrom_taken {s : Moment ε} {top : ε} {stack : List ε} {st : σ} (hs : s.stack = top :: stack)
    (hnext : ∀ x ∈ s.todo.head?, test top x = .ok false) :
    runFrom test pop s.todo s.stack st = pop st top >>= runFrom test pop (s.taken top stack).todo stack := by
  unfold runFrom
  cases ht : s.todo with
  | nil =>
    rw [hs]
    simp only [Moment.taken, ht, List.foldlM_nil, pure_eq_ok, ok_bind, List.foldlM_cons]
  | cons x todo =>
    have hpush : push test pop x s.stack st = pop st top >>= push test pop x stack := by
      rw [hs, push, hnext x (by rw [ht]; rfl), ok_bind]
      rfl
    simp only [Moment.taken, ht, List.foldlM_cons, hpush, bind_assoc]

/-- **The pop function gets the entries of the last moment.** -/
theorem run_eq {l : List ε} {s : Moment ε} (h : Reached test l s) (hend : next test s = .ok none) (st : σ) :
    run test pop l st = s.popped.foldlM pop st := by
  have hrest : ∀ s, Reached test l s →
      run test pop l st = s.popped.foldlM pop st >>= runFrom test pop s.todo s.stack := by
    intro s h
    induction h with
    | start => rfl
    | @step s s' _ hnext ih =>
      rw [ih]
      rcases next_cases hnext with ⟨x, todo, ht, htop, rfl⟩ | ⟨top, stack, hs, hout, rfl⟩
      · exact bind_congr fun st => runFrom_pushed ht htop
      · simp only [Moment.taken, List.foldlM_append, List.foldlM_cons, List.foldlM_nil, bind_pure, bind_assoc]
        exact bind_congr fun st => runFrom_taken hs hout
  obtain ⟨hs, ht⟩ := next_none hend
  rw [hrest s h, hs, ht]
  exact bind_pure _

/-- **A push is a part of the run**: it hands the pop function what it takes off, and leaves the new entry on the rest. -/
theorem push_reached {l todo : List ε} {x : ε} (htotal : ∀ s, Reached test l s → ∃ o, next test s = .ok o) :
    ∀ {stack popped : List ε}, Reached test l ⟨stack, popped, x :: todo⟩ → ∃ taken rest, stack = taken ++ rest ∧
      Reached test l ⟨x :: rest, popped ++ taken, todo⟩ ∧
      ∀ {σ : Type} (pop : σ → ε → Exec σ) (st : σ),
        push test pop x stack st = taken.foldlM pop st >>= fun st => .ok (x :: rest, st) := by
  intro stack
  induction stack with
  | nil =>
    intro popped h
    refine ⟨[], [], rfl, ?_, fun _ _ => rfl⟩
    rw [List.append_nil]
    exact h.step rfl
  | cons top stack ih =>
    intro popped h
    obtain ⟨o, ho⟩ := htotal _ h
    obtain ⟨inside, hinside, ho⟩ := bind_ok.1 ho
    cases inside with
    | true =>
      refine ⟨[], top :: stack, rfl, ?_, fun pop st => ?_⟩
      · have hpushed : Reached test l ⟨x :: top :: stack, popped, todo⟩ :=
          h.step (by simp [next, hinside, Moment.pushed])
        simpa using hpushed
      · simp [push, hinside]
    | false =>
      have htaken : Reached test l ⟨stack, popped ++ [top], x :: todo⟩ :=
        h.step (by simp [next, hinside, Moment.taken])
      obtain ⟨taken, rest, rfl, hreached, hpush⟩ := ih htaken
      refine ⟨top :: taken, rest, rfl, by simpa using hreached, fun pop st => ?_⟩
      simp only [push, hinside, ok_bind, Bool.false_eq_true, if_false, hpush, List.foldlM_cons, bind_assoc]

/-- **The first pushes of a run**, with any pop function. -/
theorem pushes_reached {l : List ε} (htotal : ∀ s, Reached test l s → ∃ o, next test s = .ok o) :
    ∀ {pushed todo : List ε}, l = pushed ++ todo → ∃ stack popped, Reached test l ⟨stack, popped, todo⟩ ∧
      ∀ {σ : Type} (pop : σ → ε → Exec σ) (st : σ),
        pushed.foldlM (fun (p : List ε × σ) x => push test pop x p.1 p.2) ([], st) =
          popped.foldlM pop st >>= fun st => .ok (stack, st) := by
  intro pushed
  induction pushed using List.reverseRecOn with
  | nil =>
    rintro todo rfl
    exact ⟨[], [], .start, fun _ _ => rfl⟩
  | append_singleton pushed x ih =>
    intro todo hl
    have hl' : l = pushed ++ x :: todo := by rw [hl]; simp
    obtain ⟨stack, popped, hreached, hrun⟩ := ih hl'
    obtain ⟨taken, rest, rfl, hpushed, hpush⟩ := push_reached htotal hreached
    refine ⟨x :: rest, popped ++ taken, hpushed, fun pop st => ?_⟩
    simp only [List.foldlM_append, hrun, bind_assoc, ok_bind, List.foldlM_cons, List.foldlM_nil, hpush, pure_eq_ok]

/-! ## What holds at every moment -/

section

variable {R : ε → ε → Prop} {l : List ε}

/-- **A moment of a run** for the relation "is around": the entries that have been pushed are popped or on the stack,
and on the stack each is around all above it. -/
structure Nested (R : ε → ε → Prop) (l : List ε) (s : Moment ε) : Prop where
  pushed : ∃ pushed, l = pushed ++ s.todo ∧ (s.popped ++ s.stack).Perm pushed
  chain : s.stack.Pairwise fun x below => R below x

theorem Nested.perm {s : Moment ε} (h : Nested R l s) : (s.popped ++ s.stack ++ s.todo).Perm l := by
  obtain ⟨pushed, rfl, hperm⟩ := h.pushed
  exact hperm.append_right s.todo

/-- **Every moment is one.** -/
theorem Reached.nested {s : Moment ε} (htrans : ∀ {a b c}, R a b → R b c → R a c)
    (hin : ∀ a b, test a b = .ok true → R a b) (h : Reached test l s) : Nested R l s := by
  induction h with
  | start => exact ⟨⟨[], rfl, .refl _⟩, .nil⟩
  | @step s s' _ hnext ih =>
    obtain ⟨⟨pushed, hl, hperm⟩, hchain⟩ := ih
    -- a push adds to what was pushed, and a pop only moves an entry
    rcases next_cases hnext with ⟨x, todo, ht, htop, rfl⟩ | ⟨top, stack, hs, _, rfl⟩
    · refine ⟨⟨pushed ++ [x], by rw [hl, ht]; simp [Moment.pushed], ?_⟩, ?_⟩
      · have hmid : (s.popped ++ x :: s.stack).Perm (x :: (s.popped ++ s.stack)) := List.perm_middle
        exact hmid.trans ((hperm.cons x).trans (List.perm_append_singleton x pushed).symm)
      · refine List.pairwise_cons.2 ⟨fun y hy => ?_, hchain⟩
        -- the new entry is inside of the top, and the top of all the others
        cases hs : s.stack with
        | nil => rw [hs] at hy; cases hy
        | cons top stack =>
          have hx : R top x := hin top x (htop top (by rw [hs]; rfl))
          rw [hs] at hy hchain
          rcases List.mem_cons.1 hy with rfl | hy
          · exact hx
          · exact htrans ((List.pairwise_cons.1 hchain).1 y hy) hx
    · rw [hs] at hperm hchain
      refine ⟨⟨pushed, hl, ?_⟩, (List.pairwise_cons.1 hchain).2⟩
      simpa [Moment.taken] using hperm

/-- **No test fails**, if it does not for an entry and a later one. -/
theorem Reached.total {s : Moment ε} (htrans : ∀ {a b c}, R a b → R b c → R a c)
    (hin : ∀ a b, test a b = .ok true → R a b) (hdef : l.Pairwise fun a b => ∃ t, test a b = .ok t)
    (h : Reached test l s) : ∃ o, next test s = .ok o := by
  obtain ⟨⟨pushed, hl, hperm⟩, _⟩ : Nested R l s := h.nested htrans hin
  unfold next
  cases ht : s.todo with
  | nil => cases s.stack <;> exact ⟨_, rfl⟩
  | cons x todo =>
    cases hs : s.stack with
    | nil => exact ⟨_, rfl⟩
    | cons top stack =>
      have htop : top ∈ pushed := hperm.subset (by rw [hs]; simp)
      rw [hl, List.pairwise_append] at hdef
      obtain ⟨t, htest⟩ := hdef.2.2 top htop x (by rw [ht]; exact List.mem_cons_self)
      simp only [htest, ok_bind]
      cases t <;> exact ⟨_, rfl⟩

/-- **A run whose tests do not fail ends.** -/
theorem reaches_end (htotal : ∀ s, Reached test l s → ∃ o, next test s = .ok o) :
    ∃ s, Reached test l s ∧ next test s = .ok none := by
  -- an entry counts twice while it waits, and once on the stack
  have hrun : ∀ (n : ℕ) (s : Moment ε), 2 * s.todo.length + s.stack.length = n → Reached test l s →
      ∃ s, Reached test l s ∧ next test s = .ok none := by
    intro n
    induction n using Nat.strongRecOn with
    | ind n ih =>
      intro s hn h
      obtain ⟨o, ho⟩ := htotal s h
      cases o with
      | none => exact ⟨s, h, ho⟩
      | some s' =>
        have hless : 2 * s'.todo.length + s'.stack.length < n := by
          rcases next_cases ho with ⟨x, todo, ht, _, rfl⟩ | ⟨top, stack, hs, _, rfl⟩
          · simp only [Moment.pushed, List.length_cons]
            rw [ht, List.length_cons] at hn
            omega
          · simp only [Moment.taken]
            rw [hs, List.length_cons] at hn
            omega
        exact ih _ hless s' rfl (h.step ho)
  exact hrun _ _ rfl .start

/-- **Entries in pre-order**: nothing that an entry is inside of comes after it, and what is inside of an entry has
no gap. -/
structure PreOrder (R : ε → ε → Prop) (l : List ε) : Prop where
  before : l.Pairwise fun a b => ¬ R b a
  contiguous : ∀ a b c, [a, b, c].Sublist l → R a c → R a b

/-- What was popped, was popped at some moment of the run. -/
theorem Reached.popped_at {s : Moment ε} (h : Reached test l s) : ∀ {before after : List ε} {top : ε},
    s.popped = before ++ top :: after → ∃ s₁ s₂, Reached test l s₁ ∧ next test s₁ = .ok (some s₂) ∧
      s₁.popped = before ∧ s₂.popped = before ++ [top] := by
  induction h with
  | start => intro before after top hp; simp at hp
  | @step s s' hs hnext ih =>
    intro before after top hp
    rcases next_cases hnext with ⟨x, todo, _, _, rfl⟩ | ⟨top', stack, _, _, rfl⟩
    · exact ih hp
    · rcases List.eq_nil_or_concat after with rfl | ⟨after, last, rfl⟩
      · have hp' : s.popped ++ [top'] = before ++ [top] := hp
        obtain ⟨hbefore, htop⟩ := List.append_inj' hp' rfl
        exact ⟨s, _, hs, hnext, hbefore, by rw [← hbefore, ← htop]; rfl⟩
      · have hp' : s.popped ++ [top'] = (before ++ top :: after) ++ [last] := by
          rw [List.concat_eq_append] at hp
          simpa [Moment.taken] using hp
        exact ih (List.append_inj' hp' rfl).1

/-- **In pre-order, an entry is popped after all that is inside of it.** -/
theorem Reached.inner_first {s s' : Moment ε} {top : ε} (htrans : ∀ {a b c}, R a b → R b c → R a c)
    (hirr : ∀ a, ¬ R a a) (hin : ∀ a b, test a b = .ok true → R a b) (hout : ∀ a b, test a b = .ok false → ¬ R a b)
    (hl : PreOrder R l) (h : Reached test l s) (hnext : next test s = .ok (some s'))
    (htop : s'.popped = s.popped ++ [top]) {x : ε} (hx : x ∈ l) (hinside : R top x) : x ∈ s.popped := by
  obtain ⟨⟨pushed, rfl, hperm⟩, hchain⟩ : Nested R l s := h.nested htrans hin
  rcases next_cases hnext with ⟨_, _, _, _, rfl⟩ | ⟨top', stack, hs, hno, rfl⟩
  · exact absurd htop (by simp [Moment.pushed])
  obtain rfl : top' = top := by simpa [Moment.taken] using htop
  rw [hs] at hperm hchain
  rcases List.mem_append.1 hx with hx | hx
  · rcases List.mem_append.1 (hperm.symm.subset hx) with hx | hx
    · exact hx
    · -- what is left on the stack is around the top
      exfalso
      rcases List.mem_cons.1 hx with rfl | hx
      · exact hirr x hinside
      · exact hirr x (htrans ((List.pairwise_cons.1 hchain).1 x hx) hinside)
  · -- what is still to come would have the next entry in the gap
    exfalso
    cases ht : s.todo with
    | nil => rw [ht] at hx; cases hx
    | cons y todo =>
      have hy := hout top' y (hno y (by rw [ht]; rfl))
      rw [ht] at hx hl
      rcases List.mem_cons.1 hx with rfl | hx
      · exact hy hinside
      · have htop : top' ∈ pushed := hperm.subset (by simp)
        have hsub : [top', y, x].Sublist (pushed ++ y :: todo) :=
          (List.singleton_sublist.2 htop).append ((List.singleton_sublist.2 hx).cons_cons y)
        exact hy (hl.contiguous top' y x hsub hinside)

end

end Sfmf.NestedStack
