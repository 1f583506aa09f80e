import Sfmf.Lib.NestedStack
import Sfmf.Spec.Unpack

/-!
# The directory stack (`common/dirstack.c`)

`dirstack_push` pops what the new path is not below, as `is_prefix_of` sees it, so
that a directory gets its modification time after everything below it is written.

* `isPrefixOf_eq`: `is_prefix_of` is the relation between a directory and a path below
  it, by whole components.
* `dirstackPush_ok`: what `dirstack_push` pops, and what it leaves.
* `dirstackPush_eq`: the directory stack is a stack of nested entries, with any `pop_func`.
* `dirstackPushes_ok`: what a sequence of `dirstack_push` has popped, and what it leaves.
* `dirstack_childrenFirst`: every path is popped once, and in a walk after all that is
  below it.
-/

namespace Sfmf

/-! ## Paths -/

/-- A path below a directory, whose name can end in a slash. -/
def Below (dir path : Bytes) : Prop :=
  path ≠ dir ∧ ((dir.getLast? = some slash ∧ dir <+: path) ∨ dir ++ [slash] <+: path)

instance (dir path : Bytes) : Decidable (Below dir path) := by unfold Below; infer_instance

theorem Below.isPrefix {a b : Bytes} (h : Below a b) : a <+: b :=
  h.2.elim (·.2) fun h => (List.prefix_append a [slash]).trans h

theorem Below.length_lt {a b : Bytes} (h : Below a b) : a.length < b.length := by
  refine lt_of_le_of_ne h.isPrefix.length_le fun hlen => h.1 ?_
  exact (h.isPrefix.eq_of_length hlen).symm

theorem below_irrefl (a : Bytes) : ¬ Below a a := fun h => h.1 rfl

theorem Below.trans {a b c : Bytes} (h : Below a b) (h' : Below b c) : Below a c := by
  refine ⟨fun heq => ?_, ?_⟩
  · have := h.length_lt
    have := h'.length_lt
    rw [heq] at this
    omega
  · exact h.2.imp (fun ⟨hslash, hpre⟩ => ⟨hslash, hpre.trans h'.isPrefix⟩) fun hpre => hpre.trans h'.isPrefix

/-- **`is_prefix_of` compares whole components.** -/
theorem isPrefixOf_eq {a b : Bytes} (hne : a ≠ b) (ha : a ≠ []) : isPrefixOf a b = .ok (decide (Below a b)) := by
  rw [isPrefixOf, cAssert_pos hne, ok_bind, List.getLast?_eq_some_getLast ha]
  -- the next byte is a slash exactly if the path goes on with one
  have hnext : a <+: b → (b[a.length]? = some slash ↔ a ++ [slash] <+: b) := by
    rintro ⟨rest, rfl⟩
    rw [List.getElem?_append_right le_rfl, Nat.sub_self, List.prefix_append_right_inj]
    cases rest with
    | nil => simp
    | cons c rest => simp [List.cons_prefix_cons, eq_comm]
  have hpre : (b.length > a.length ∧ b.take a.length = a) ↔ (b ≠ a ∧ a <+: b) := by
    rw [List.prefix_iff_eq_take]
    constructor
    · rintro ⟨hlen, htake⟩
      exact ⟨fun h => by rw [h] at hlen; omega, htake.symm⟩
    · rintro ⟨hba, htake⟩
      refine ⟨?_, htake.symm⟩
      by_contra hlen
      exact hba (by rw [htake, List.take_of_length_le (by omega)])
  by_cases h : b ≠ a ∧ a <+: b
  · rw [if_pos (hpre.2 h)]
    simp only [pure_eq_ok, Except.ok.injEq, decide_eq_decide, Below, List.getLast?_eq_some_getLast ha,
      Option.some.injEq, hnext h.2]
    exact ⟨fun hs => ⟨h.1, hs.imp_left fun hs => ⟨hs, h.2⟩⟩, fun hs => hs.2.imp_left (·.1)⟩
  · rw [if_neg (mt hpre.1 h), pure_eq_ok, Except.ok.injEq]
    exact (decide_eq_false fun hb => h ⟨hb.1, hb.isPrefix⟩).symm

/-- **Sibling names are not confused**, nor what is below them. -/
theorem not_below_sibling {dir a b rest : Bytes} (ha : a ≠ []) (hsa : slash ∉ a) (hsb : slash ∉ b) (hab : a ≠ b)
    (hrest : rest = [] ∨ rest.head? = some slash) : ¬ Below (dir ++ a) (dir ++ (b ++ rest)) := by
  rintro ⟨_, hlast | hpre⟩
  · refine hsa (List.mem_of_getLast? ?_)
    rw [← hlast.1, List.getLast?_append_of_ne_nil _ ha]
  · rw [List.append_assoc, List.prefix_append_right_inj] at hpre
    have hcut : ∀ {n r : Bytes}, slash ∉ n → (r = [] ∨ r.head? = some slash) →
        (n ++ r).takeWhile (· ≠ slash) = n := by
      intro n r hn hr
      have hall : ∀ c ∈ n, decide (c ≠ slash) = true := by
        intro c hc
        exact decide_eq_true fun h => hn (h ▸ hc)
      rw [List.takeWhile_append_of_pos hall]
      rcases hr with rfl | hr
      · simp
      · cases r with
        | nil => cases hr
        | cons c r =>
          obtain rfl : c = slash := by simpa using hr
          simp
    obtain ⟨tail, htail⟩ := hpre
    rw [List.append_assoc] at htail
    refine hab ?_
    rw [← hcut (r := slash :: tail) hsa (.inr rfl), ← hcut hsb hrest, ← htail]
    rfl

/-! ## The stack -/

/-- The test of `dirstack_push`. -/
def isBelowTop (top current : DirStackEntry) : Exec Bool := isPrefixOf top.path current.path

/-- What `is_prefix_of` says is right, whenever it says something. -/
theorem isBelowTop_ok {a b : DirStackEntry} {t : Bool} (h : isBelowTop a b = .ok t) :
    t = decide (Below a.path b.path) := by
  have hne : a.path ≠ b.path := by
    intro heq
    rw [isBelowTop, isPrefixOf, heq] at h
    obtain ⟨_, hassert, _⟩ := bind_ok.1 h
    exact cAssert_ok.1 hassert rfl
  by_cases ha : a.path = []
  · -- an empty path has no last byte
    rw [isBelowTop, isPrefixOf, cAssert_pos hne, ok_bind, ha] at h
    rw [ha] at hne
    have hlen : b.path.length > 0 := List.length_pos_iff.2 (Ne.symm hne)
    simp [hlen] at h
  · rw [isBelowTop, isPrefixOf_eq hne ha, Except.ok.injEq] at h
    exact h.symm

section

variable {σ : Type} {popFunc : σ → DirStackEntry → Exec σ}

/-- **What `dirstack_push` does**: it pops from the top, and leaves the new entry on the rest. -/
theorem dirstackPush_ok {current : DirStackEntry} : ∀ {stack stack' : List DirStackEntry} {s s' : σ},
    dirstackPush popFunc current stack s = .ok (stack', s') → ∃ popped rest, stack = popped ++ rest ∧
      stack' = current :: rest ∧ popped.foldlM popFunc s = .ok s' := by
  intro stack
  induction stack with
  | nil => intro stack' s s' h; cases h; exact ⟨[], [], rfl, rfl, rfl⟩
  | cons top stack ih =>
    intro stack' s s' h
    simp only [dirstackPush, bind_ok] at h
    obtain ⟨below, _, h⟩ := h
    cases below with
    | true =>
      simp only [if_true, pure_eq_ok, Except.ok.injEq, Prod.mk.injEq] at h
      obtain ⟨rfl, rfl⟩ := h
      exact ⟨[], top :: stack, rfl, rfl, rfl⟩
    | false =>
      simp only [Bool.false_eq_true, if_false, bind_ok] at h
      obtain ⟨s₁, hpop, h⟩ := h
      obtain ⟨popped, rest, rfl, rfl, hpopped⟩ := ih h
      exact ⟨top :: popped, rest, rfl, rfl, by rw [List.foldlM_cons, hpop, ok_bind, hpopped]⟩

variable (popFunc)

/-- **The directory stack is a stack of nested entries.** -/
theorem dirstackPush_eq (current : DirStackEntry) (stack : List DirStackEntry) : ∀ s : σ,
    dirstackPush popFunc current stack s = NestedStack.push isBelowTop popFunc current stack s := by
  induction stack with
  | nil => exact fun s => rfl
  | cons top stack ih =>
    intro s
    simp only [dirstackPush, NestedStack.push, ih]
    rfl

/-- `dirstack_push` for one entry after another, on a new stack. -/
def dirstackPushes (pushes : List DirStackEntry) (s : σ) : Exec (List DirStackEntry × σ) :=
  pushes.foldlM (fun (p : List DirStackEntry × σ) e => dirstackPush popFunc e p.1 p.2) ([], s)

/-- The same, and `dirstack_free` at the end. -/
def dirstackRun (pushes : List DirStackEntry) (s : σ) : Exec σ := do
  let (stack, s) ← dirstackPushes popFunc pushes s
  dirstackFree popFunc stack s

theorem dirstackRun_eq (pushes : List DirStackEntry) (s : σ) :
    dirstackRun popFunc pushes s = NestedStack.run isBelowTop popFunc pushes s := by
  unfold dirstackRun dirstackPushes
  simp only [dirstackPush_eq]
  rfl

end

/-- The entries in the order in which they are handed to `pop_func`. -/
def popOrder (pushes : List DirStackEntry) : Exec (List DirStackEntry) :=
  dirstackRun (fun popped e => .ok (popped ++ [e])) pushes []

theorem foldlM_log (es : List DirStackEntry) : ∀ log : List DirStackEntry,
    es.foldlM (fun popped e => (.ok (popped ++ [e]) : Exec (List DirStackEntry))) log = .ok (log ++ es) := by
  induction es with
  | nil => intro log; rw [List.append_nil]; rfl
  | cons e es ih => intro log; rw [List.foldlM_cons, ok_bind, ih, List.append_assoc]; rfl

/-! ## Distinct paths -/

section

variable {pushes : List DirStackEntry}

/-- A moment of a run of `dirstack_push` for each entry, with `dirstack_free` at the end. -/
abbrev DirStackMoment (pushes : List DirStackEntry) (s : NestedStack.Moment DirStackEntry) : Prop :=
  NestedStack.Reached isBelowTop pushes s

theorem isBelowTop_true (a b : DirStackEntry) (h : isBelowTop a b = .ok true) : Below a.path b.path :=
  of_decide_eq_true (isBelowTop_ok h).symm

theorem isBelowTop_false (a b : DirStackEntry) (h : isBelowTop a b = .ok false) : ¬ Below a.path b.path :=
  of_decide_eq_false (isBelowTop_ok h).symm

theorem below_path_trans {a b c : DirStackEntry} (h : Below a.path b.path) (h' : Below b.path c.path) :
    Below a.path c.path := h.trans h'

/-- At every moment, the entries that were pushed are popped or on the stack, where each is an ancestor of all above it. -/
theorem DirStackMoment.nested {s : NestedStack.Moment DirStackEntry} (h : DirStackMoment pushes s) :
    NestedStack.Nested (fun a b => Below a.path b.path) pushes s :=
  NestedStack.Reached.nested below_path_trans isBelowTop_true h

variable (hdist : (pushes.map (·.path)).Nodup) (hne : ∀ e ∈ pushes, e.path ≠ [])

include hdist hne

/-- No comparison fails. -/
theorem DirStackMoment.total {s : NestedStack.Moment DirStackEntry} (h : DirStackMoment pushes s) :
    ∃ next, NestedStack.next isBelowTop s = .ok next := by
  refine NestedStack.Reached.total (R := fun a b => Below a.path b.path) below_path_trans isBelowTop_true ?_ h
  rw [List.Nodup, List.pairwise_map] at hdist
  exact hdist.imp_of_mem fun {a b} ha _ hab => ⟨_, isPrefixOf_eq hab (hne a ha)⟩

/-- **What a sequence of `dirstack_push` has done**, with any `pop_func`. -/
theorem dirstackPushes_eq {pushed rest : List DirStackEntry} (h : pushes = pushed ++ rest) :
    ∃ stack popped, DirStackMoment pushes ⟨stack, popped, rest⟩ ∧
      ∀ {σ : Type} (popFunc : σ → DirStackEntry → Exec σ) (s : σ),
        dirstackPushes popFunc pushed s = popped.foldlM popFunc s >>= fun s => .ok (stack, s) := by
  obtain ⟨stack, popped, hmoment, hrun⟩ :=
    NestedStack.pushes_reached (fun _ hs => DirStackMoment.total hdist hne hs) h
  refine ⟨stack, popped, hmoment, fun popFunc s => ?_⟩
  simp only [dirstackPushes, dirstackPush_eq]
  exact hrun popFunc s

/-- The stack that is returned, with any `pop_func`: the entries that were pushed are popped or on it. -/
theorem dirstackPushes_ok {σ : Type} {popFunc : σ → DirStackEntry → Exec σ} {s s' : σ}
    {pushed rest stack : List DirStackEntry} (h : pushes = pushed ++ rest)
    (hrun : dirstackPushes popFunc pushed s = .ok (stack, s')) :
    ∃ popped, (popped ++ stack).Perm pushed ∧ stack.Pairwise (fun e below => Below below.path e.path) ∧
      popped.foldlM popFunc s = .ok s' := by
  obtain ⟨stack', popped, hmoment, heq⟩ := dirstackPushes_eq hdist hne h
  rw [heq, bind_ok] at hrun
  obtain ⟨s₁, hpopped, hstack⟩ := hrun
  cases hstack
  obtain ⟨⟨pushed', hl, hperm⟩, hchain⟩ := hmoment.nested
  obtain rfl : pushed = pushed' := List.append_cancel_right (h.symm.trans hl)
  exact ⟨popped, hperm, hchain, hpopped⟩

end

/-- **The stack pops children before parents**, each directory once. -/
structure ChildrenFirst (pushes : List DirStackEntry) : Prop where
  /-- on each stack that `dirstack_push` returns, and on what pops leave of it, each entry is an ancestor of every
  entry above it -/
  chain : ∀ {σ : Type} (popFunc : σ → DirStackEntry → Exec σ) (s s' : σ) (pushed stack left : List DirStackEntry),
    pushed <+: pushes → dirstackPushes popFunc pushed s = .ok (stack, s') → left <:+ stack →
      left.Pairwise fun e below => isPrefixOf below.path e.path = .ok true
  /-- no path is compared with itself -/
  compares : ∀ {σ : Type} (popFunc : σ → DirStackEntry → Exec σ) (s s' : σ) (pushed stack : List DirStackEntry)
    (e : DirStackEntry), pushed ++ [e] <+: pushes → dirstackPushes popFunc pushed s = .ok (stack, s') →
      ∀ top ∈ stack, top.path ≠ e.path
  /-- each entry with its data is handed to `pop_func` once, whatever that does -/
  once : ∃ popped, popOrder pushes = .ok popped ∧ popped.Perm pushes ∧
    ∀ {σ : Type} (popFunc : σ → DirStackEntry → Exec σ) (s : σ), dirstackRun popFunc pushes s = popped.foldlM popFunc s
  /-- in a walk, an entry is popped when all that is below it has been -/
  children : NestedStack.PreOrder (fun a b => Below a.path b.path) pushes →
    ∀ before top after, popOrder pushes = .ok (before ++ top :: after) → ∀ e ∈ pushes, Below top.path e.path → e ∈ before
  /-- a name is not taken for a prefix of its sibling's -/
  siblings : ∀ dir a b rest, a ≠ [] → slash ∉ a → slash ∉ b → a ≠ b → rest = [] ∨ rest.head? = some slash →
    isPrefixOf (dir ++ a) (dir ++ (b ++ rest)) = .ok false

/-- **Children first**: for all calls of `dirstack_push` with paths that are distinct and not empty, and
`dirstack_free` at the end. -/
theorem dirstack_childrenFirst {pushes : List DirStackEntry} (hdist : (pushes.map (·.path)).Nodup)
    (hne : ∀ e ∈ pushes, e.path ≠ []) : ChildrenFirst pushes := by
  have hprefix : ∀ {pushed : List DirStackEntry}, pushed <+: pushes → ∃ rest, pushes = pushed ++ rest :=
    fun ⟨rest, h⟩ => ⟨rest, h.symm⟩
  obtain ⟨last, hlast, hend⟩ := NestedStack.reaches_end fun _ hs => DirStackMoment.total hdist hne hs
  have hrun : ∀ {σ : Type} (popFunc : σ → DirStackEntry → Exec σ) (s : σ),
      dirstackRun popFunc pushes s = last.popped.foldlM popFunc s := fun popFunc s => by
    rw [dirstackRun_eq, NestedStack.run_eq hlast hend]
  have horder : popOrder pushes = .ok last.popped := by rw [popOrder, hrun, foldlM_log, List.nil_append]
  constructor
  case chain =>
    intro σ popFunc s s' pushed stack left hpushed h hleft
    obtain ⟨rest, hrest⟩ := hprefix hpushed
    obtain ⟨popped, hperm, hchain, -⟩ := dirstackPushes_ok hdist hne hrest h
    refine (hchain.sublist hleft.sublist).imp_of_mem fun {e below} _ hbelow hb => ?_
    have hmem : below ∈ pushes := hrest ▸ List.mem_append_left _
      (hperm.subset (List.mem_append_right _ (hleft.subset hbelow)))
    rw [isPrefixOf_eq hb.1.symm (hne below hmem), decide_eq_true hb]
  case compares =>
    intro σ popFunc s s' pushed stack e hpushed h top htop
    obtain ⟨rest, hrest⟩ := hprefix hpushed
    rw [List.append_assoc] at hrest
    obtain ⟨popped, hperm, -, -⟩ := dirstackPushes_ok hdist hne hrest h
    rw [hrest, List.map_append, List.nodup_append] at hdist
    exact hdist.2.2 _ (List.mem_map_of_mem (hperm.subset (List.mem_append_right _ htop))) _ (by simp)
  case once =>
    have hperm := (DirStackMoment.nested hlast).perm
    obtain ⟨hstack, htodo⟩ := NestedStack.next_none hend
    rw [hstack, htodo, List.append_nil, List.append_nil] at hperm
    exact ⟨last.popped, horder, hperm, hrun⟩
  case children =>
    intro hwalk before top after hpopped e he hbelow
    rw [horder, Except.ok.injEq] at hpopped
    obtain ⟨s, s', hs, hnext, rfl, htop⟩ := NestedStack.Reached.popped_at hlast hpopped
    exact hs.inner_first (R := fun a b => Below a.path b.path) below_path_trans (fun a => below_irrefl a.path)
      isBelowTop_true isBelowTop_false hwalk hnext htop he hbelow
  case siblings =>
    intro dir a b rest ha hsa hsb hab hrest
    have hdiff : dir ++ a ≠ dir ++ (b ++ rest) := by
      intro heq
      have ha' := List.append_cancel_left heq
      rcases hrest with rfl | hrest
      · exact hab (by rw [ha', List.append_nil])
      · exact hsa (ha' ▸ List.mem_append_right b (List.mem_of_mem_head? hrest))
    rw [isPrefixOf_eq hdiff (by simp [ha]), Except.ok.injEq]
    exact decide_eq_false (not_below_sibling ha hsa hsb hab hrest)

/-- A walk over a tree with two directories of which one name begins with the other. -/
def fooWalk : List DirStackEntry :=
  [⟨str ['o', '/'], .zero⟩, ⟨str ['o', '/', 'f', 'o', 'o'], .zero⟩, ⟨str ['o', '/', 'f', 'o', 'o', '/', 'x'], .zero⟩,
    ⟨str ['o', '/', 'f', 'o', 'o', 'b', 'a', 'r'], .zero⟩]

/-- This is a walk, whose directories are popped in the order 2, 1, 3, 0. -/
theorem dirstack_childrenFirst_foo : ChildrenFirst fooWalk ∧
    NestedStack.PreOrder (fun a b => Below a.path b.path) fooWalk ∧
    popOrder fooWalk = .ok ([2, 1, 3, 0].filterMap fun i => fooWalk[i]?) := by
  refine ⟨dirstack_childrenFirst (by decide) (by decide), ⟨by decide, fun a b c hsub => ?_⟩, by decide⟩
  have hall : ∀ t ∈ fooWalk.sublists, ∀ a ∈ t[0]?, ∀ b ∈ t[1]?, ∀ c ∈ t[2]?, Below a.path c.path → Below a.path b.path := by
    decide
  exact hall [a, b, c] (List.mem_sublists.2 hsub) a rfl b rfl c rfl

end Sfmf
