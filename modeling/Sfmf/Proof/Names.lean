import Mathlib.Data.List.DropRight
import Sfmf.Proof.RoundTrip

/-!
# The names in the manifest

`get_file_basename` cuts as many characters off a path as the directory of the command line
has; `nftw` has taken the slashes off the end of that directory before.

* `nftwPath_below`: the paths that `nftw` reports below a directory.
* `getFileBasename_unfaithful`: behind a slash too many, every name is too short.
* `namesFaithful_iff`: the names are those of the same tree exactly when the directory has no
  slash at its end, `/` alone apart.
-/

namespace Sfmf

/-! ## What `nftw` reports -/

/-- The root that `nftw` reports: slashes at the end of its argument are taken off, but never the first
character. -/
def nftwRoot (dir : Bytes) : Bytes := dir.take 1 ++ (dir.drop 1).rdropWhile (· = slash)

/-- An entry of a directory: one slash goes in between, unless there is one. -/
def nftwJoin (dir name : Bytes) : Bytes := if dir.getLast? = some slash then dir ++ name else dir ++ slash :: name

/-- The path that is reported for what these names lead to. -/
def nftwPath (dir : Bytes) (cs : List Bytes) : Bytes := cs.foldl nftwJoin (nftwRoot dir)

/-- **What `nftw` reports**: distinct paths of the root and of what is below it, and nothing for an empty
argument. -/
structure NftwReports (inDir : CString) (walk : List CString) : Prop where
  nodup : walk.Nodup
  paths : ∀ p ∈ walk, ∃ cs, (∀ c ∈ cs, Component c) ∧ p.val = nftwPath inDir.val cs
  empty : inDir.val = [] → walk = []

/-- A root that ends in a slash is `/`. -/
theorem nftwRoot_cases {dir : Bytes} (hdir : dir ≠ []) :
    nftwRoot dir = [slash] ∨ (nftwRoot dir).getLast? ≠ some slash := by
  obtain ⟨a, rest, rfl⟩ := List.exists_cons_of_ne_nil hdir
  have hroot : nftwRoot (a :: rest) = a :: rest.rdropWhile (· = slash) := rfl
  rw [hroot]
  by_cases hnil : rest.rdropWhile (· = slash) = []
  · rw [hnil]
    by_cases ha : a = slash
    · exact .inl (by rw [ha])
    · exact .inr fun h => ha (Option.some.inj h)
  · right
    have hlast := List.rdropWhile_last_not (fun b : UInt8 => decide (b = slash)) rest hnil
    rw [List.getLast?_eq_some_getLast (List.cons_ne_nil _ _), List.getLast_cons hnil, Ne, Option.some.injEq]
    exact fun h => hlast (decide_eq_true h)

/-- Without a slash at its end, the argument is the root. -/
theorem nftwRoot_self {dir : Bytes} (h : dir.getLast? ≠ some slash) : nftwRoot dir = dir := by
  cases dir with
  | nil => rfl
  | cons a rest =>
    have hself : rest.rdropWhile (· = slash) = rest := by
      rw [List.rdropWhile_eq_self_iff]
      intro hne hlast
      rw [List.getLast?_eq_some_getLast (List.cons_ne_nil _ _), List.getLast_cons hne] at h
      exact h (congrArg some (of_decide_eq_true hlast))
    exact congrArg (a :: ·) hself

/-- With one, the root is shorter, unless it is all of the argument. -/
theorem nftwRoot_lt {dir : Bytes} (h : dir.getLast? = some slash) :
    dir = [slash] ∨ (nftwRoot dir).length < dir.length := by
  rcases List.eq_nil_or_concat dir with rfl | ⟨dir, b, rfl⟩
  · cases h
  rw [List.concat_eq_append] at h ⊢
  rw [List.getLast?_append, List.getLast?_singleton, Option.some_or, Option.some.injEq] at h
  subst h
  cases dir with
  | nil => exact .inl rfl
  | cons a rest =>
    right
    have hroot : nftwRoot (a :: rest ++ [slash]) = a :: (rest ++ [slash]).rdropWhile (· = slash) := rfl
    have hle := ( List.rdropWhile_prefix (fun b : UInt8 => decide (b = slash)) rest).length_le
    rw [hroot, List.rdropWhile_concat_pos (fun b : UInt8 => decide (b = slash)) rest slash (decide_eq_true rfl)]
    simp only [List.length_cons, List.length_append, List.cons_append]
    omega

theorem getLast_join {dir c : Bytes} (hc : Component c) : (dir ++ slash :: c).getLast? ≠ some slash := by
  intro h
  rw [List.getLast?_append, List.getLast?_cons_of_ne_nil hc.1] at h
  rw [List.getLast?_eq_some_getLast hc.1, Option.some_or, Option.some.injEq] at h
  exact hc.2.1 (h ▸ List.getLast_mem hc.1)

/-- Below a directory without a slash at its end, the paths are those of the names. -/
theorem foldl_nftwJoin {cs : List Bytes} : ∀ {dir : Bytes}, dir.getLast? ≠ some slash → (∀ c ∈ cs, Component c) →
    cs.foldl nftwJoin dir = dir ++ pathOf cs := by
  induction cs with
  | nil => intro dir _ _; simp
  | cons c cs ih =>
    intro dir hdir hcs
    have hc := hcs c List.mem_cons_self
    rw [List.foldl_cons, nftwJoin, if_neg hdir, ih (getLast_join hc) fun c hc => hcs c (List.mem_cons_of_mem _ hc)]
    simp [pathOf]

/-- **The paths below a directory.** -/
theorem nftwPath_below {dir : Bytes} (hdir : dir ≠ []) {cs : List Bytes} (hne : cs ≠ [])
    (hcs : ∀ c ∈ cs, Component c) :
    nftwPath dir cs = (if nftwRoot dir = [slash] then [] else nftwRoot dir) ++ pathOf cs := by
  unfold nftwPath
  by_cases hroot : nftwRoot dir = [slash]
  · obtain ⟨c, cs, rfl⟩ := List.exists_cons_of_ne_nil hne
    have hjoin : nftwJoin [slash] c = nftwJoin [] c := rfl
    -- the slash of the root stands for the one in between
    rw [if_pos hroot, hroot, List.foldl_cons, hjoin, ← List.foldl_cons (f := nftwJoin),
      foldl_nftwJoin (by simp) hcs]
  · rw [if_neg hroot, foldl_nftwJoin ((nftwRoot_cases hdir).resolve_left hroot) hcs]

/-- The walk of a tree is reported, if its root has no slash at the end. -/
theorem TreeWalk.reports {D : Disk} {inDir : CString} {walk : List CString} (W : TreeWalk D inDir walk)
    (hne : inDir.val ≠ []) (hslash : inDir.val.getLast? ≠ some slash) : NftwReports inDir walk where
  nodup := W.nodup
  paths p hp := by
    obtain ⟨cs, hcs, hpath⟩ := W.leadsDown hp
    refine ⟨cs, hcs, ?_⟩
    rw [nftwPath, nftwRoot_self hslash, foldl_nftwJoin hslash hcs]
    exact hpath
  empty h := absurd h hne

/-! ## Names and targets -/

/-- **Names that are faithful**: `get_file_basename` gives the root and each path below it their relative names,
and behind any output directory these are the places of the same tree, no two of them the same. -/
structure NamesFaithful (inDir : CString) (walk : List CString) : Prop where
  /-- No assertion fails. -/
  total : ∃ names, walk.mapM (getFileBasename inDir) = .ok names
  root : ∀ p ∈ walk, p.val = nftwRoot inDir.val → getFileBasename inDir p = .ok (str ['/'])
  below : ∀ p ∈ walk, ∀ cs, cs ≠ [] → (∀ c ∈ cs, Component c) → p.val = nftwPath inDir.val cs →
    getFileBasename inDir p = .ok (pathOf cs)
  inj : ∀ p ∈ walk, ∀ q ∈ walk, ∀ name, getFileBasename inDir p = .ok name → getFileBasename inDir q = .ok name → p = q
  places : ∀ (cwd : List Bytes) (outputdir : Bytes), ∃ base, ∀ p ∈ walk, ∀ cs, (∀ c ∈ cs, Component c) →
    p.val = nftwPath inDir.val cs → ∀ name, getFileBasename inDir p = .ok name →
    resolve cwd (outputdir ++ name) = base ++ cs
  apart : ∀ (cwd : List Bytes) (outputdir : Bytes), ∀ p ∈ walk, ∀ q ∈ walk, ∀ a b, getFileBasename inDir p = .ok a →
    getFileBasename inDir q = .ok b → resolve cwd (outputdir ++ a) = resolve cwd (outputdir ++ b) → p = q

/-- A name that is cut off a path has fewer characters than the path, by those of the directory. -/
theorem getFileBasename_length {inDir p : CString} {name : Bytes} (h : getFileBasename inDir p = .ok name) :
    p = inDir ∧ name = str ['/'] ∨
      inDir.val.length < p.val.length ∧ name.length + inDir.val.length ≤ p.val.length := by
  unfold getFileBasename at h
  by_cases hself : p.val = inDir.val
  · rw [if_pos hself] at h
    exact .inl ⟨Subtype.ext hself, (Except.ok.inj h).symm⟩
  right
  rw [if_neg hself] at h
  obtain ⟨_, hlen, h⟩ := bind_ok.1 h
  rw [cAssert_ok] at hlen
  have hdrop := List.length_drop (i := inDir.val.length) (l := p.val)
  have hname := Except.ok.inj h
  split at hname
  · rw [← hname, List.length_drop]
    omega
  · rw [← hname]
    omega

/-- **Behind a slash too many, every name is wrong**, but for that of the directory itself. -/
theorem getFileBasename_unfaithful {inDir p : CString} {cs : List Bytes} {name : Bytes}
    (hslash : inDir.val.getLast? = some slash) (hcs : ∀ c ∈ cs, Component c) (hp : p.val = nftwPath inDir.val cs)
    (h : getFileBasename inDir p = .ok name) (hne : p ≠ inDir) : cs ≠ [] ∧ name ≠ pathOf cs := by
  obtain ⟨hself, _⟩ | ⟨hlt, hlen⟩ := getFileBasename_length h
  · exact absurd hself hne
  have hdir : inDir.val ≠ [] := by
    intro hnil
    rw [hnil] at hslash
    cases hslash
  have hroot : (nftwRoot inDir.val).length ≤ inDir.val.length := by
    rcases nftwRoot_lt hslash with heq | hlt
    · rw [heq]
      exact le_rfl
    · exact hlt.le
  have hcsne : cs ≠ [] := by
    rintro rfl
    rw [hp] at hlt
    exact absurd hlt (Nat.not_lt.2 hroot)
  refine ⟨hcsne, fun hname => ?_⟩
  have hlength := congrArg List.length hp
  rw [nftwPath_below hdir hcsne hcs, List.length_append, ← hname] at hlength
  -- the path has what the root has before the name, and that is shorter than the directory
  by_cases hone : nftwRoot inDir.val = [slash]
  · rw [if_pos hone, List.length_nil] at hlength
    have := List.length_pos_iff.2 hdir
    omega
  · rw [if_neg hone] at hlength
    rcases nftwRoot_lt hslash with heq | hshort
    · exact hone (by rw [heq]; rfl)
    · omega

/-- Where unpacked files are, behind any output directory. -/
theorem resolve_target (cwd : List Bytes) (outputdir : Bytes) : ∃ base, resolve cwd (outputdir ++ str ['/']) = base ∧
    ∀ cs, cs ≠ [] → (∀ c ∈ cs, Component c) → resolve cwd (outputdir ++ pathOf cs) = base ++ cs := by
  by_cases hout : outputdir = []
  · subst hout
    refine ⟨[], by simp [resolve, str, components, follow, slash], fun cs hne hcs => ?_⟩
    obtain ⟨c, cs, rfl⟩ := List.exists_cons_of_ne_nil hne
    -- one more slash in front leads to the same place
    have hroot := resolve_pathOf cwd (List.cons_ne_nil slash []) hcs
    have hsame : resolve cwd ([slash] ++ pathOf (c :: cs)) = resolve cwd (pathOf (c :: cs)) := by
      simp [resolve, pathOf, components, follow]
    rw [List.nil_append, ← hsame, hroot]
    simp [resolve, components, follow]
  · have htree := lexical_tree cwd hout
    exact ⟨resolve cwd outputdir, htree.root.trans (by simp), fun cs hne hcs => htree.resolve cs hne hcs⟩

section

variable {inDir : CString} {walk : List CString} (W : NftwReports inDir walk)
  (hwhen : inDir.val.getLast? ≠ some slash ∨ ∀ p ∈ walk, p = inDir)

include W hwhen

omit W in
theorem getFileBasename_reportedRoot {p : CString} (hp : p ∈ walk) (hpath : p.val = nftwRoot inDir.val) :
    getFileBasename inDir p = .ok (str ['/']) := by
  have hself : p = inDir := by
    rcases hwhen with hslash | hall
    · exact Subtype.ext (hpath.trans (nftwRoot_self hslash))
    · exact hall p hp
  rw [hself]
  exact getFileBasename_root inDir

theorem getFileBasename_reported {p : CString} (hp : p ∈ walk) {cs : List Bytes} (hne : cs ≠ [])
    (hcs : ∀ c ∈ cs, Component c) (hpath : p.val = nftwPath inDir.val cs) :
    getFileBasename inDir p = .ok (pathOf cs) := by
  have hdir : inDir.val ≠ [] := by
    intro hnil
    rw [W.empty hnil] at hp
    exact absurd hp List.not_mem_nil
  rw [nftwPath_below hdir hne hcs] at hpath
  by_cases hslash : inDir.val.getLast? = some slash
  · -- only the directory is reported, and no path below ends in a slash
    have hself := hwhen.resolve_left (not_not.2 hslash) p hp
    obtain ⟨cs', c, rfl⟩ := (List.eq_nil_or_concat cs).resolve_left hne
    rw [List.concat_eq_append, pathOf_append, ← List.append_assoc, hself] at hpath
    rw [hpath] at hslash
    exact absurd hslash (getLast_join (hcs c (by simp)))
  · have hone : inDir.val ≠ [slash] := fun h => hslash (by rw [h]; rfl)
    rw [nftwRoot_self hslash, if_neg hone] at hpath
    exact getFileBasename_below hne hpath

/-- No assertion fails. -/
theorem getFileBasename_total {p : CString} (hp : p ∈ walk) : ∃ name, getFileBasename inDir p = .ok name := by
  obtain ⟨cs, hcs, hpath⟩ := W.paths p hp
  by_cases hne : cs = []
  · rw [hne] at hpath
    exact ⟨_, getFileBasename_reportedRoot hwhen hp hpath⟩
  · exact ⟨_, getFileBasename_reported W hwhen hp hne hcs hpath⟩

/-- **The targets are the places of the tree** behind an output directory. -/
theorem getFileBasename_place (cwd : List Bytes) (outputdir : Bytes) : ∃ base, ∀ p ∈ walk, ∀ cs,
    (∀ c ∈ cs, Component c) → p.val = nftwPath inDir.val cs → ∀ name, getFileBasename inDir p = .ok name →
    resolve cwd (outputdir ++ name) = base ++ cs := by
  obtain ⟨base, hbase, htarget⟩ := resolve_target cwd outputdir
  refine ⟨base, fun p hp cs hcs hpath name hname => ?_⟩
  by_cases hne : cs = []
  · rw [hne] at hpath ⊢
    rw [getFileBasename_reportedRoot hwhen hp hpath, Except.ok.injEq] at hname
    rw [← hname, hbase, List.append_nil]
  · rw [getFileBasename_reported W hwhen hp hne hcs hpath, Except.ok.injEq] at hname
    rw [← hname, htarget cs hne hcs]

theorem getFileBasename_apart (cwd : List Bytes) (outputdir : Bytes) {p q : CString} (hp : p ∈ walk) (hq : q ∈ walk)
    {a b : Bytes} (ha : getFileBasename inDir p = .ok a) (hb : getFileBasename inDir q = .ok b)
    (hab : resolve cwd (outputdir ++ a) = resolve cwd (outputdir ++ b)) : p = q := by
  obtain ⟨base, hbase⟩ := getFileBasename_place W hwhen cwd outputdir
  obtain ⟨cs, hcs, hpath⟩ := W.paths p hp
  obtain ⟨cs', hcs', hpath'⟩ := W.paths q hq
  rw [hbase p hp cs hcs hpath a ha, hbase q hq cs' hcs' hpath' b hb] at hab
  -- one place has one list of names, and that has one path
  rw [List.append_cancel_left hab] at hpath
  exact Subtype.ext (hpath.trans hpath'.symm)

end

/-- **The names are faithful** exactly when the directory of the command line has no slash at its end, or nothing
but itself is reported. -/
theorem namesFaithful_iff {inDir : CString} {walk : List CString} (W : NftwReports inDir walk) :
    NamesFaithful inDir walk ↔ inDir.val.getLast? ≠ some slash ∨ ∀ p ∈ walk, p = inDir := by
  constructor
  · intro F
    refine or_iff_not_imp_left.2 fun hslash p hp => ?_
    have hslash := not_not.1 hslash
    obtain ⟨cs, hcs, hpath⟩ := W.paths p hp
    by_contra hne
    by_cases hroot : cs = []
    · rw [hroot] at hpath
      exact (getFileBasename_unfaithful hslash (by simp) hpath (F.root p hp hpath) hne).1 rfl
    · exact (getFileBasename_unfaithful hslash hcs hpath (F.below p hp cs hroot hcs hpath) hne).2 rfl
  intro hwhen
  have htotal : ∃ names, walk.mapM (getFileBasename inDir) = .ok names := by
    obtain ⟨names, hnames, _⟩ := mapM_total (P := fun _ _ => True) fun p hp =>
      (getFileBasename_total W hwhen hp).imp fun _ h => ⟨h, trivial⟩
    exact ⟨names, hnames⟩
  exact ⟨htotal, fun p => getFileBasename_reportedRoot hwhen,
    fun p hp cs => getFileBasename_reported W hwhen hp,
    fun p hp q hq name ha hb => getFileBasename_apart W hwhen [] [] hp hq ha hb rfl,
    getFileBasename_place W hwhen,
    fun cwd outputdir p hp q hq a b => getFileBasename_apart W hwhen cwd outputdir hp hq⟩

/-- The names of the files in the directory `d`. -/
theorem namesFaithful_letterWalk : NamesFaithful letterDir letterWalk :=
  (namesFaithful_iff (letterWalk_treeWalk.reports (by decide) (by decide))).2 (.inl (by decide))

/-- **A slash at the end**: for `d/`, the root is shorter than the argument, and for `/` the name of a file loses its
first letter, since a slash is missed that is not there. -/
theorem namesFaithful_slash :
    (NftwReports ⟨str ['d', '/'], by decide⟩ [letterDir] ∧ ¬ NamesFaithful ⟨str ['d', '/'], by decide⟩ [letterDir] ∧
      getFileBasename ⟨str ['d', '/'], by decide⟩ letterDir =
        .error (.assertion "strlen(filename) > strlen(opts->in_dir)")) ∧
    (NftwReports ⟨str ['/'], by decide⟩ [⟨str ['/'], by decide⟩, ⟨str ['/', 'u', 's', 'r'], by decide⟩] ∧
      ¬ NamesFaithful ⟨str ['/'], by decide⟩ [⟨str ['/'], by decide⟩, ⟨str ['/', 'u', 's', 'r'], by decide⟩] ∧
      getFileBasename ⟨str ['/'], by decide⟩ ⟨str ['/', 'u', 's', 'r'], by decide⟩ = .ok (str ['s', 'r'])) := by
  have hd : getFileBasename ⟨str ['d', '/'], by decide⟩ letterDir =
      .error (.assertion "strlen(filename) > strlen(opts->in_dir)") := rfl
  have husr : getFileBasename ⟨str ['/'], by decide⟩ ⟨str ['/', 'u', 's', 'r'], by decide⟩ = .ok (str ['s', 'r']) := rfl
  refine ⟨⟨⟨by decide, ?_, by decide⟩, fun F => ?_, hd⟩, ⟨by decide, ?_, by decide⟩, fun F => ?_, husr⟩
  · simp only [List.forall_mem_cons]
    exact ⟨⟨[], by simp, rfl⟩, by simp⟩
  · have hroot := F.root letterDir (by simp) rfl
    rw [hd] at hroot
    cases hroot
  · simp only [List.forall_mem_cons]
    exact ⟨⟨[], by simp, rfl⟩, ⟨[str ['u', 's', 'r']], by decide, rfl⟩, by simp⟩
  · have hbelow := F.below ⟨str ['/', 'u', 's', 'r'], by decide⟩ (by simp) [str ['u', 's', 'r']] (by simp) (by decide) rfl
    rw [husr, Except.ok.injEq] at hbelow
    exact absurd hbelow (by decide)

end Sfmf
