/-
What ignores without wildcards leave out.

Such an ignore stands for a path below the base directory, and leaves out the files that start
with it, component by component. Two paths that mean the same differ in one component at most,
the `.` in front (`Path.IsDotted`). So of the files that lie under an ignore, those start with
it that are written with a `.` in front exactly if the ignore is
(`Path.startsWith_iff_liesUnder`). An ignore is written as the base directory is, and a file as
the path is that its walk starts at (`Path.isDotted_of_mem_walked`).

The main result, `literal_ignores_apply`, says when these two agree: always for the base
directory itself and for includes without wildcards, and for all includes below a base
directory that is written plainly and without a `.`. What a pattern leads to is written without
the `.` of the base directory, so ignores do not apply to it there.
-/
import TemplateCatalog.Proofs.OriginLabels
import TemplateCatalog.Proofs.Relocation

namespace TemplateCatalog

/-! ### Paths with a `.` in front -/

namespace Path

/-- The path is written with a `.` in front. -/
def IsDotted (p : Text) : Prop := (components p).head? = some .current

/-- The file lies under the path, whether or not they are written with a `.` in front. -/
def LiesUnder (file p : Text) : Prop := plain p <+: plain file

instance (p : Text) : Decidable (IsDotted p) :=
  inferInstanceAs (Decidable ((components p).head? = some .current))

instance (file p : Text) : Decidable (LiesUnder file p) :=
  inferInstanceAs (Decidable (plain p <+: plain file))

variable {p q : Text}

theorem current_not_mem_plain (p : Text) : .current ∉ plain p := by
  simp [plain]

theorem isDotted_iff_front : IsDotted p ↔ front p = [.current] := by
  rw [IsDotted, components_eq, front]
  split_ifs with habs hcurrent
  · simp
  · simp
  · exact iff_of_false (fun h => current_not_mem_segments p (List.mem_of_mem_head? h))
      not_false

/-- A `.` is a component in front only. -/
theorem components_eq_plain (p : Text) :
    components p = (if IsDotted p then [.current] else []) ++ plain p := by
  rw [plain, components_eq, List.filter_append, filter_segments, ← List.append_assoc]
  congr 1
  split_ifs with hp
  · rw [isDotted_iff_front.1 hp]
    rfl
  · rw [isDotted_iff_front] at hp
    refine (List.filter_eq_self.2 fun c hc => ?_).symm
    rw [decide_eq_true_eq]
    rintro rfl
    rw [front] at hp hc
    split_ifs at hp hc
    · cases List.mem_singleton.1 hc
    · exact hp rfl
    · cases hc

/-- Below a path lies what starts with it, if both are written with a `.` in front or both
without. -/
theorem startsWith_iff_liesUnder {file : Text} (hp : components p ≠ []) :
    startsWith file p = true ↔ (IsDotted file ↔ IsDotted p) ∧ LiesUnder file p := by
  have hplain : ¬IsDotted p → plain p ≠ [] := by
    intro hdotted hnil
    rw [components_eq_plain, if_neg hdotted, hnil] at hp
    exact hp rfl
  rw [startsWith_iff, LiesUnder, components_eq_plain file, components_eq_plain p]
  -- A `.` in front of one path only is compared with a component of the other that is none.
  by_cases hfile : IsDotted file <;> by_cases hdotted : IsDotted p
  · simp [hfile, hdotted]
  · obtain ⟨c, cs, hcs⟩ := List.exists_cons_of_ne_nil (hplain hdotted)
    have hc : Component.current ≠ c := by
      rintro rfl
      exact current_not_mem_plain p (hcs ▸ List.mem_cons_self)
    simp [hfile, hdotted, hcs, hc.symm]
  · have hcurrent := current_not_mem_plain file
    refine iff_of_false (fun h => hcurrent ?_) fun h => hfile (h.1.2 hdotted)
    rw [if_pos hdotted, if_neg hfile] at h
    exact h.subset List.mem_cons_self
  · simp [hfile, hdotted]

/-! ### Longer paths -/

theorem not_isDotted_of_isAbsolute (h : isAbsolute p = true) : ¬IsDotted p := by
  rw [isDotted_iff_front, front, if_pos h]
  simp

theorem isDotted_join (hp : p ≠ []) (hq : isAbsolute q = false) :
    IsDotted (join p q) ↔ IsDotted p := by
  by_cases hroot : p = ['/']
  · subst hroot
    refine iff_of_false (not_isDotted_of_isAbsolute ?_) (not_isDotted_of_isAbsolute rfl)
    rw [join, hq]
    rfl
  · obtain ⟨p', hne, hcomponents, -, hjoin⟩ := join_eq_append hp hroot
    have hdotted : IsDotted p' ↔ IsDotted p := by rw [IsDotted, IsDotted, hcomponents]
    rw [hjoin q hq, ← hdotted, isDotted_iff_front, isDotted_iff_front, front_append hne]

theorem not_isDotted_join (hp : p ≠ []) (h : ¬IsDotted p) (q : Text) :
    ¬IsDotted (join p q) := by
  cases hq : isAbsolute q with
  | true =>
    rw [join, if_pos hq]
    exact not_isDotted_of_isAbsolute hq
  | false => rwa [isDotted_join hp hq]

theorem join_ne_nil (hp : p ≠ []) (q : Text) : join p q ≠ [] := by
  rw [join]
  split_ifs with hq
  · rintro rfl
    cases hq
  · exact List.append_ne_nil_of_left_ne_nil hp _
  · exact List.append_ne_nil_of_left_ne_nil hp _

/-- A path that is joined to another is written as that one is. -/
theorem startsWith_join_iff {file : Text} (hp : p ≠ []) (hq : isAbsolute q = false) :
    startsWith file (join p q) = true ↔ (IsDotted file ↔ IsDotted p) ∧
      LiesUnder file (join p q) := by
  rw [startsWith_iff_liesUnder (components_ne_nil (join_ne_nil hp q)), isDotted_join hp hq]

end Path

open TemplateCatalog.Path

/-! ### Walks -/

/-- What a walk finds is written as the path that it starts at. -/
theorem FileTree.IsSound.isDotted_of_mem_walked {tree : FileTree} (hu : tree.IsSound)
    {a f : Text} (hf : f ∈ Scan.walked tree a) : IsDotted f ↔ IsDotted a := by
  obtain ⟨p, hp, ⟨bytes, -, rfl⟩ | ⟨-, names, bytes, hmem, rfl⟩⟩ :=
    FileTree.mem_walked_iff.1 hf
  · rfl
  · obtain ⟨hne, hitem⟩ := FileTree.mem_descendants_iff.1 hmem
    have hreached := hu.reached hitem
    have hnames :=
      FileTree.intercalate_names hne fun s hs => hreached.names s (List.mem_append_right _ hs)
    exact isDotted_join (FileTree.locate_eq_ok_iff.1 hp).1 hnames.2

/-! ### Patterns -/

namespace Glob

/-- A path that is written without a `.` in front. -/
structure Undotted (path : Text) : Prop where
  ne_nil : path ≠ []
  not_isDotted : ¬IsDotted path

namespace Undotted

variable {tree : FileTree} {path : Text}

theorem join (h : Undotted path) (name : Text) : Undotted (Path.join path name) :=
  ⟨join_ne_nil h.ne_nil name, not_isDotted_join h.ne_nil h.not_isDotted name⟩

theorem childPath (h : Undotted path) (name : Text) : Undotted (childPath path name) := by
  have hcurrent : ¬isCurrent path = true := by
    intro hcurrent
    rw [isCurrent, beq_iff_eq] at hcurrent
    exact h.not_isDotted (by rw [IsDotted, hcurrent]; rfl)
  rw [Glob.childPath, if_neg hcurrent]
  exact h.join name

/-- The components of a pattern put nothing in front of the path that they start from. -/
theorem expands (h : Undotted path) {directoryOnly : Bool} {ps : List Pattern} {z : Text}
    (hz : Expands tree directoryOnly ps path z) : Undotted z := by
  induction hz with
  | done => exact h
  | literal _ _ _ ih => exact ih (h.childPath _)
  | directories => exact h.childPath _
  | deep _ _ _ _ _ _ _ ih => exact ih (h.childPath _)
  | name _ _ _ _ _ _ ih => exact ih (h.childPath _)
  | dots _ _ _ _ _ _ _ ih => exact ih (h.join _)

end Undotted

theorem undotted_of_isAbsolute {path : Text} (h : isAbsolute path = true) : Undotted path := by
  refine ⟨?_, not_isDotted_of_isAbsolute h⟩
  rintro rfl
  cases h

/-- Separators alone are the root. -/
theorem undotted_startPath {pattern : Text} (h : isAbsolute pattern = true) :
    Undotted (startPath pattern) := by
  obtain ⟨hne, hslashes⟩ := startPath_of_isAbsolute h
  obtain ⟨c, r, hstart⟩ := List.exists_cons_of_ne_nil hne
  apply undotted_of_isAbsolute
  rw [hstart, hslashes c (hstart ▸ List.mem_cons_self)]
  rfl

/-- The first segment of a relative path is written with a `.` in front only if the path is. -/
theorem undotted_head {path c : Text} {ss : List Text} (h : Undotted path)
    (habs : isAbsolute path = false) (hsegments : segments path = c :: ss) : Undotted c := by
  have hslash : '/' ∉ c := not_mem_of_mem_segments (p := path) (hsegments ▸ List.mem_cons_self)
  refine ⟨head_segments_ne_nil h.ne_nil habs hsegments, fun hdotted => h.not_isDotted ?_⟩
  rw [isDotted_iff_front, front, isAbsolute_of_not_mem hslash,
    segments_of_not_mem hslash] at hdotted
  rw [isDotted_iff_front, front, habs, hsegments]
  exact hdotted

/-- Below a base directory that is written plainly and without a `.` in front, a pattern leads
to paths without it. An absolute one starts at the root. Of any other the first segment of the
base directory is followed from the working directory, and stands alone. -/
theorem undotted_of_mem_expand {tree : FileTree} {base e z : Text} {us : List Text}
    (hbase : Undotted base) (hplain : IsPlain base) (he : isAbsolute e = false)
    (h : expand tree (Path.join base e) = .ok us) (hz : z ∈ us) : Undotted z := by
  rw [expand] at h
  split at h
  · cases h
  · rename_i ps hps
    cases h
    rw [mem_expandFrom_iff] at hz
    cases habs : isAbsolute (Path.join base e) with
    | true => exact (undotted_startPath habs).expands hz
    | false =>
      -- The root in front of a pattern would make it absolute.
      have hroot : base ≠ ['/'] := by
        rintro rfl
        rw [Path.join, he] at habs
        cases habs
      obtain ⟨s, hne, hcomponents, hs, hjoin⟩ := join_eq_append hbase.ne_nil hroot
      have hsplain : IsPlain s := by
        rcases hs with rfl | rfl
        · exact hplain
        · exact fun c hc => hplain c (List.mem_append_left _ hc)
      have hsbase : Undotted s :=
        ⟨hne, fun h => hbase.not_isDotted (by rwa [IsDotted, ← hcomponents])⟩
      rw [hjoin e he] at hps hz habs
      rw [isAbsolute_append hne] at habs
      obtain ⟨c, ss, hsegments⟩ := List.exists_cons_of_ne_nil (segments_ne_nil s)
      obtain ⟨qs, -, rfl⟩ := (readComponents_append hsplain).1 hps
      -- The first component of the pattern is the first segment of the base directory.
      rw [startPath_relative hne habs, hsegments, List.map_cons, List.cons_append,
        expands_literal_iff (isLiteral_plainPattern c)] at hz
      exact (undotted_head hsbase habs hsegments).expands hz.2

end Glob

/-! ### Starts -/

namespace Scan

variable {tree : FileTree} {base : Text} {config : Config}

/-- A walk starts at a path that is written as the base directory is, unless it comes from an
include with wildcards. -/
theorem isDotted_of_mem_startPaths (hbase : base ≠ [])
    (hincludes : ∀ i ∈ config.includes, isAbsolute i = false) {a : Text}
    (ha : a ∈ (startPaths tree base config.includes).1) :
    (IsDotted a ↔ IsDotted base) ∨
      ∃ i ∈ config.includes, hasWildcard i = true ∧ a ∈ (includePaths tree base i).1 := by
  rcases mem_startPaths_iff.1 ha with ⟨-, rfl⟩ | ⟨i, hi, ha⟩
  · exact Or.inl Iff.rfl
  · cases hwild : hasWildcard i with
    | true => exact Or.inr ⟨i, hi, hwild, ha⟩
    | false =>
      obtain ⟨rfl, -⟩ := (mem_includePaths_of_path hwild).1 ha
      exact Or.inl (isDotted_join hbase (hincludes i hi))

/-- Below a base directory that is written plainly and without a `.` in front, all walks start
at such paths. -/
theorem not_isDotted_of_mem_startPaths (hbase : base ≠ [])
    (hincludes : ∀ i ∈ config.includes, isAbsolute i = false) (hplain : Glob.IsPlain base)
    (hdotted : ¬IsDotted base) {a : Text} (ha : a ∈ (startPaths tree base config.includes).1) :
    ¬IsDotted a := by
  rcases isDotted_of_mem_startPaths hbase hincludes ha with h | ⟨i, hi, hwild, ha⟩
  · rwa [h]
  · obtain ⟨⟨us, hus, hmem⟩, -⟩ := (mem_includePaths_of_wildcard hwild).1 ha
    have hundotted :=
      Glob.undotted_of_mem_expand ⟨hbase, hdotted⟩ hplain (hincludes i hi) hus hmem
    exact hundotted.not_isDotted

/-! ### The main result -/

/-- An ignore without wildcards stands for a path that the file lies under. -/
def LiesUnderIgnore (config : Config) (base f : Text) : Prop :=
  ∃ e ∈ config.ignores, hasWildcard e = false ∧ LiesUnder f (Path.join base e)

/-- What the ignores without wildcards leave out is what lies under them and is written as the
base directory. -/
theorem any_startsWith_iff (hbase : base ≠ [])
    (hignores : ∀ e ∈ config.ignores, isAbsolute e = false) (f : Text) :
    (Ignores.ofEntries base config.ignores).paths.any (Path.startsWith f) = true ↔
      (IsDotted f ↔ IsDotted base) ∧ LiesUnderIgnore config base f := by
  simp only [Ignores.ofEntries, List.any_map, List.any_eq_true, List.mem_filter,
    Function.comp_apply, LiesUnderIgnore, ← exists_and_left]
  refine exists_congr fun e => ?_
  constructor
  · rintro ⟨⟨he, hwild⟩, hstarts⟩
    obtain ⟨hdotted, hunder⟩ := (startsWith_join_iff hbase (hignores e he)).1 hstarts
    exact ⟨hdotted, he, by simpa using hwild, hunder⟩
  · rintro ⟨hdotted, he, hwild, hunder⟩
    exact ⟨⟨he, by simpa using hwild⟩,
      (startsWith_join_iff hbase (hignores e he)).2 ⟨hdotted, hunder⟩⟩

/-- **When ignores without wildcards apply.** They leave out of a walk what lies under them, if
the walk starts at a path that is written with a `.` in front exactly if the base directory is.
So a file that lies under one of them is found only if an include with wildcards leads to it,
below a base directory that is written with a `.` in front or with characters that are read as
wildcards. -/
theorem literal_ignores_apply (hu : tree.IsSound) (hbase : base ≠ [])
    (hincludes : ∀ i ∈ config.includes, isAbsolute i = false)
    (hignores : ∀ e ∈ config.ignores, isAbsolute e = false) :
    (∀ a ∈ (startPaths tree base config.includes).1, ∀ f ∈ walked tree a,
      ((Ignores.ofEntries base config.ignores).paths.any (Path.startsWith f) = true ↔
        (IsDotted a ↔ IsDotted base) ∧ LiesUnderIgnore config base f)) ∧
    ∀ f ∈ (run tree base config).files, LiesUnderIgnore config base f →
      (IsDotted base ∨ ¬Glob.IsPlain base) ∧
        ∃ i ∈ config.includes, hasWildcard i = true ∧ ∃ a ∈ (includePaths tree base i).1,
          f ∈ walked tree a ∧ ¬(IsDotted a ↔ IsDotted base) := by
  have hcovers : ∀ a ∈ (startPaths tree base config.includes).1, ∀ f ∈ walked tree a,
      ((Ignores.ofEntries base config.ignores).paths.any (Path.startsWith f) = true ↔
        (IsDotted a ↔ IsDotted base) ∧ LiesUnderIgnore config base f) := by
    intro a _ f hf
    rw [any_startsWith_iff hbase hignores, hu.isDotted_of_mem_walked hf]
  refine ⟨hcovers, fun f hf hunder => ?_⟩
  obtain ⟨⟨a, ha, hwalked⟩, hselects⟩ := FileTree.mem_files_iff.1 hf
  -- A file that is found was not left out, so its walk starts at a path that is written
  -- otherwise.
  have hapart : ¬(IsDotted a ↔ IsDotted base) := by
    intro halike
    have hcovered := (hcovers a ha f hwalked).2 ⟨halike, hunder⟩
    simp [selects, Ignores.covers, hcovered] at hselects
  constructor
  · by_contra hplain
    rw [not_or, not_not] at hplain
    exact hapart
      (iff_of_false (not_isDotted_of_mem_startPaths hbase hincludes hplain.2 hplain.1 ha)
        hplain.1)
  · rcases isDotted_of_mem_startPaths hbase hincludes ha with halike | ⟨i, hi, hwild, ha⟩
    · exact absurd halike hapart
    · exact ⟨i, hi, hwild, a, ha, hwalked, hapart⟩

/-- Below a name the directory `x` is left out of what an include with wildcards leads to. -/
theorem literal_ignores_apply_belowName :
    let config : Config := { includes := ["*".toList], ignores := ["x".toList] }
    let tree := twoDirectories.inside "b".toList
    tree.IsSound ∧ LiesUnderIgnore config "b".toList "b/x/t.html".toList ∧
      "b/s/t.html".toList ∈ (run tree "b".toList config).files ∧
      "b/x/t.html".toList ∉ (run tree "b".toList config).files := by
  intro config tree
  have hlocate : ∀ x ∈ tree.items, tree.locate (['/'].intercalate x.1) = .ok x.1 := by decide
  have hu : tree.IsSound := fun p item hmem => FileTree.locate_reached (hlocate (p, item) hmem)
  have hunder : LiesUnderIgnore config "b".toList "b/x/t.html".toList :=
    ⟨"x".toList, List.mem_singleton_self _, by decide, by decide⟩
  refine ⟨hu, hunder, FileTree.mem_files_iff.2 (by decide +kernel), fun hfound => ?_⟩
  · have hbase : "b".toList ≠ [] := by decide
    have hincludes : ∀ i ∈ config.includes, isAbsolute i = false := by decide
    have hignores : ∀ e ∈ config.ignores, isAbsolute e = false := by decide
    obtain ⟨-, happly⟩ := literal_ignores_apply hu hbase hincludes hignores
    exact absurd (happly _ hfound hunder).1 (by decide)

/-- In the working directory, named `.`, it is found all the same. -/
theorem literal_ignores_apply_workingDirectory :
    let config : Config := { includes := ["*".toList], ignores := ["x".toList] }
    config.fault? = none ∧ twoDirectories.IsSound ∧
      LiesUnder "x/t.html".toList (Path.join ".".toList "x".toList) ∧
      LiesUnderIgnore config ".".toList "x/t.html".toList ∧
      "x/t.html".toList ∈ (run twoDirectories ".".toList config).files := by
  refine ⟨by decide +kernel, isSound_twoDirectories, by decide,
    ⟨"x".toList, List.mem_singleton_self _, by decide, by decide⟩,
    FileTree.mem_files_iff.2 (by decide +kernel)⟩

end Scan

end TemplateCatalog
