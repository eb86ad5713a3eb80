/-
What a glob pattern leads to.

`Expands` is the rule by which the components of a pattern lead from one path to another, one
constructor for each kind of component, and `mem_expandFrom_iff` says that the expansion of a
pattern finds exactly the paths that the rule leads to. What is proved of expansions is proved
by induction on the rule.
-/
import TemplateCatalog.Glob.Expansion
import Mathlib.Data.List.Basic

namespace TemplateCatalog

namespace Glob

/-- A name without wildcards leads on from a path: `.` and `..` from a directory, other names
to what is there. -/
def LeadsOn (tree : FileTree) (path name : Text) : Prop :=
  ((name = ['.'] ∨ name = ['.', '.']) ∧ tree.isDirectory path = true) ∨
    (¬(name = ['.'] ∨ name = ['.', '.']) ∧ tree.existsAt (childPath path name) = true)

/-- The components of a pattern lead from the first path to the second. -/
inductive Expands (tree : FileTree) (directoryOnly : Bool) : List Pattern → Text → Text → Prop
  | done {path : Text} (h : directoryOnly = true → tree.isDirectory path = true) :
      Expands tree directoryOnly [] path path
  /-- A component without wildcards is followed as it is written. -/
  | literal {p : Pattern} {ps : List Pattern} {path z : Text} (hp : p.isLiteral = true)
      (hon : LeadsOn tree path p.source)
      (hz : Expands tree directoryOnly ps (childPath path p.source) z) :
      Expands tree directoryOnly (p :: ps) path z
  /-- `**` at the end stands for the directories below. -/
  | directories {p : Pattern} {ps : List Pattern} {path : Text} {names : Place}
      (hp : p.isLiteral = false) (hdir : tree.isDirectory path = true)
      (hdirs : p.isDirectories = true) (hps : ps.dropWhile Pattern.isDirectories = [])
      (hmem : (names, .directory) ∈ namesBelow tree path) :
      Expands tree directoryOnly (p :: ps) path (childPath path (['/'].intercalate names))
  /-- Anything below can match the component behind `**`. -/
  | deep {p q : Pattern} {ps qs : List Pattern} {path z : Text} {names : Place} {item : Item}
      (hp : p.isLiteral = false) (hdir : tree.isDirectory path = true)
      (hdirs : p.isDirectories = true) (hps : ps.dropWhile Pattern.isDirectories = q :: qs)
      (hmem : (names, item) ∈ namesBelow tree path)
      (hq : q.matches? (names.getLastD []) = true)
      (hz : Expands tree directoryOnly qs (childPath path (['/'].intercalate names)) z) :
      Expands tree directoryOnly (p :: ps) path z
  /-- Other wildcards are compared with the names in the directory. -/
  | name {p : Pattern} {ps : List Pattern} {path z name : Text} {item : Item}
      (hp : p.isLiteral = false) (hdir : tree.isDirectory path = true)
      (hdirs : p.isDirectories = false) (hmem : ([name], item) ∈ namesBelow tree path)
      (hname : p.matches? name = true)
      (hz : Expands tree directoryOnly ps (childPath path name) z) :
      Expands tree directoryOnly (p :: ps) path z
  /-- A component that starts with a point is also compared with `.` and `..`. -/
  | dots {p : Pattern} {ps : List Pattern} {path z name : Text} (hp : p.isLiteral = false)
      (hdir : tree.isDirectory path = true) (hdirs : p.isDirectories = false)
      (hpoint : p.startsWithPoint = true) (hdots : name = ['.'] ∨ name = ['.', '.'])
      (hname : p.matches? name = true)
      (hz : Expands tree directoryOnly ps (Path.join path name) z) :
      Expands tree directoryOnly (p :: ps) path z

theorem mem_finish_iff {tree : FileTree} {directoryOnly : Bool} {path z : Text} :
    z ∈ finish tree directoryOnly path ↔
      z = path ∧ (directoryOnly = true → tree.isDirectory path = true) := by
  rw [finish]
  cases directoryOnly <;> cases tree.isDirectory path <;> simp

theorem expands_of_mem_expandFrom {tree : FileTree} {directoryOnly : Bool} {ps : List Pattern}
    {path z : Text} (hz : z ∈ expandFrom tree directoryOnly ps path) :
    Expands tree directoryOnly ps path z := by
  fun_induction expandFrom tree directoryOnly ps path with
  | case1 path =>
    obtain ⟨rfl, h⟩ := mem_finish_iff.1 hz
    exact .done h
  | case2 path p ps hp next isDots hon ih => exact .literal hp hon (ih hz)
  | case3 => cases hz
  | case4 => cases hz
  | case5 path p ps hp hdir hdirs hps =>
    obtain ⟨⟨names, item⟩, hmem, hsome⟩ := List.mem_filterMap.1 hz
    dsimp only at hsome
    split_ifs at hsome with hitem
    obtain rfl := Option.some.inj hsome
    exact .directories (by simpa using hp) (by simpa using hdir) hdirs hps (hitem ▸ hmem)
  | case6 path p ps hp hdir hdirs q qs hps ih =>
    obtain ⟨⟨names, item⟩, hmem, hz⟩ := List.mem_flatMap.1 hz
    obtain ⟨hq, hz⟩ := List.mem_ite_nil_right.1 hz
    exact .deep (by simpa using hp) (by simpa using hdir) hdirs hps hmem hq (ih names hz)
  | case7 path p ps hp hdir hdirs names dots ihNames ihDots =>
    -- Names of the directory, or `.` and `..`, which no directory lists.
    rcases List.mem_append.1 hz with hz | hz
    · obtain ⟨name, hname, hz⟩ := List.mem_flatMap.1 hz
      obtain ⟨⟨place, item⟩, hmem, hsome⟩ := List.mem_filterMap.1 hname
      dsimp only at hsome
      split at hsome
      · split_ifs at hsome with hmatch
        obtain rfl := Option.some.inj hsome
        exact .name (by simpa using hp) (by simpa using hdir) (by simpa using hdirs) hmem
          hmatch (ihNames _ hz)
      · cases hsome
    · obtain ⟨name, hname, hz⟩ := List.mem_flatMap.1 hz
      simp only [dots] at hname
      split_ifs at hname with hpoint
      · obtain ⟨hdots, hmatch⟩ := List.mem_filter.1 hname
        exact .dots (by simpa using hp) (by simpa using hdir) (by simpa using hdirs) hpoint
          (List.mem_pair.1 hdots) hmatch (ihDots name hz)
      · cases hname

theorem mem_expandFrom_of_expands {tree : FileTree} {directoryOnly : Bool} {ps : List Pattern}
    {path z : Text} (hz : Expands tree directoryOnly ps path z) :
    z ∈ expandFrom tree directoryOnly ps path := by
  induction hz with
  | done h =>
    rw [expandFrom]
    exact mem_finish_iff.2 ⟨rfl, h⟩
  | literal hp hon _ ih =>
    rw [expandFrom, if_pos hp]
    exact (if_pos hon).symm ▸ ih
  | directories hp hdir hdirs hps hmem =>
    simp only [expandFrom, hp, hdir, hdirs, Bool.false_eq_true, if_false, Bool.not_true,
      if_true]
    split
    · exact List.mem_filterMap.2 ⟨_, hmem, if_pos rfl⟩
    · rename_i h
      cases hps.symm.trans h
  | deep hp hdir hdirs hps hmem hq _ ih =>
    simp only [expandFrom, hp, hdir, hdirs, Bool.false_eq_true, if_false, Bool.not_true,
      if_true]
    split
    · rename_i h
      cases hps.symm.trans h
    · rename_i h
      cases hps.symm.trans h
      exact List.mem_flatMap.2 ⟨_, hmem, (if_pos hq).symm ▸ ih⟩
  | name hp hdir hdirs hmem hname _ ih =>
    simp only [expandFrom, hp, hdir, hdirs, Bool.false_eq_true, if_false, Bool.not_true]
    refine List.mem_append_left _
      (List.mem_flatMap.2 ⟨_, List.mem_filterMap.2 ⟨_, hmem, ?_⟩, ih⟩)
    exact if_pos hname
  | dots hp hdir hdirs hpoint hdots hname _ ih =>
    simp only [expandFrom, hp, hdir, hdirs, Bool.false_eq_true, if_false, Bool.not_true]
    refine List.mem_append_right _ (List.mem_flatMap.2 ⟨_, ?_, ih⟩)
    rw [if_pos hpoint]
    exact List.mem_filter.2 ⟨List.mem_pair.2 hdots, hname⟩

/-- The expansion of a pattern finds what its components lead to. -/
theorem mem_expandFrom_iff {tree : FileTree} {directoryOnly : Bool} {ps : List Pattern}
    {path z : Text} : z ∈ expandFrom tree directoryOnly ps path ↔
      Expands tree directoryOnly ps path z :=
  ⟨expands_of_mem_expandFrom, mem_expandFrom_of_expands⟩

end Glob

end TemplateCatalog
