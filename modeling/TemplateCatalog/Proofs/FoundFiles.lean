/-
Which files a scan finds.

A scan starts at the base directory, or where its includes lead to (`IsStart`), and finds a
file if the names on the way to it lead there from a start, if it has the extension of a
template, and if no ignore stands for it (`IsFound`). `mem_files_iff_isFound` says that it
finds these files and no others.

So of the entries of a configuration only their members count. The main result,
`scan_unordered_and_monotone`, says what follows: entries can be permuted and repeated, a
further ignore adds no file, and a further include or extension takes none away. All of it is
one fact about configurations that include less and leave out more
(`files_subset_of_narrower`).
-/
import TemplateCatalog.Proofs.Relocation

namespace TemplateCatalog

/-! ### Listings -/

/-- A listing without contradictions: what is listed can be reached, and is listed as one
thing. -/
structure FileTree.IsConsistent (t : FileTree) : Prop where
  sound : t.IsSound
  single : ∀ p item item', (p, item) ∈ t.items → (p, item') ∈ t.items → item = item'

namespace FileTree

variable {t : FileTree}

theorem IsConsistent.eq_of_mem_entries (h : t.IsConsistent) {p : Place} {item item' : Item}
    (hmem : (p, item) ∈ t.entries) (hmem' : (p, item') ∈ t.entries) : item = item' := by
  rcases mem_entries_iff.1 hmem with ⟨hp, rfl⟩ | ⟨hp, hmem⟩
  · rcases mem_entries_iff.1 hmem' with ⟨-, rfl⟩ | ⟨hp', -⟩
    · rfl
    · exact absurd hp hp'
  · rcases mem_entries_iff.1 hmem' with ⟨hp', -⟩ | ⟨-, hmem'⟩
    · exact absurd hp' hp
    · exact h.single p item item' hmem hmem'

theorem IsConsistent.at?_eq_some_iff (h : t.IsConsistent) {p : Place} {item : Item} :
    t.at? p = some item ↔ (p, item) ∈ t.entries := by
  refine ⟨mem_entries_of_at?, fun hmem => ?_⟩
  cases hat : t.at? p with
  | none => exact absurd hmem (not_mem_entries_of_at? hat item)
  | some item' => rw [h.eq_of_mem_entries (mem_entries_of_at? hat) hmem]

/-- The path from a directory to what lies below it. -/
def pathBelow (path : Text) (names : Place) : Text :=
  if names = [] then path else Path.join path (['/'].intercalate names)

theorem Reached.locate_pathBelow {p names : Place} (h : t.Reached (p ++ names)) {path : Text}
    (hpath : t.locate path = .ok p) : t.locate (pathBelow path names) = .ok (p ++ names) := by
  rw [pathBelow]
  split_ifs with hnames
  · rw [hnames, List.append_nil, hpath]
  · exact h.locate_join hnames hpath

/-- A walk finds the files to which names lead from its start. -/
theorem IsConsistent.mem_walked_iff (h : t.IsConsistent) {path file : Text} :
    file ∈ Scan.walked t path ↔ ∃ p names bytes, t.locate path = .ok p ∧
      t.at? (p ++ names) = some (.file bytes) ∧ file = pathBelow path names := by
  rw [FileTree.mem_walked_iff]
  constructor
  · rintro ⟨p, hp, ⟨bytes, hat, rfl⟩ | ⟨-, names, bytes, hmem, rfl⟩⟩
    · exact ⟨p, [], bytes, hp, by rwa [List.append_nil], rfl⟩
    · obtain ⟨hne, hitem⟩ := mem_descendants_iff.1 hmem
      exact ⟨p, names, bytes, hp, h.at?_eq_some_iff.2 hitem, by rw [pathBelow, if_neg hne]⟩
  · rintro ⟨p, names, bytes, hp, hat, rfl⟩
    refine ⟨p, hp, ?_⟩
    -- Without names the walk starts at the file itself; else `p` is a directory on the way to
    -- it.
    by_cases hne : names = []
    · subst hne
      rw [List.append_nil] at hat
      exact Or.inl ⟨bytes, hat, rfl⟩
    · have hitem := mem_entries_of_at? hat
      have hdir : t.at? p = some .directory :=
        (h.sound.reached hitem).directories p (List.prefix_append p names) (by simpa using hne)
      exact Or.inr ⟨hdir, names, bytes, mem_descendants_iff.2 ⟨hne, hitem⟩,
        by rw [pathBelow, if_neg hne]⟩

end FileTree

namespace Scan

variable {tree : FileTree} {base : Text} {c d : Config}

/-! ### What is found -/

/-- A scan starts at a path: the base directory, if there are no includes, or what an include
leads to. -/
inductive IsStart (tree : FileTree) (base : Text) (includes : List Text) : Text → Prop
  | base (h : includes = []) : IsStart tree base includes base
  | path {i : Text} (hi : i ∈ includes) (hwild : hasWildcard i = false)
      (hexists : tree.existsAt (Path.join base i) = true) :
      IsStart tree base includes (Path.join base i)
  | pattern {i a : Text} {us : List Text} (hi : i ∈ includes) (hwild : hasWildcard i = true)
      (hus : Glob.expand tree (Path.join base i) = .ok us) (ha : a ∈ us)
      (hdir : tree.isDirectory a = true) : IsStart tree base includes a

theorem mem_startPaths_iff_isStart {includes : List Text} {a : Text} :
    a ∈ (startPaths tree base includes).1 ↔ IsStart tree base includes a := by
  rw [mem_startPaths_iff]
  constructor
  · rintro (⟨hempty, rfl⟩ | ⟨i, hi, ha⟩)
    · exact .base hempty
    · cases hwild : hasWildcard i with
      | true =>
        obtain ⟨⟨us, hus, hmem⟩, hdir⟩ := (mem_includePaths_of_wildcard hwild).1 ha
        exact .pattern hi hwild hus hmem hdir
      | false =>
        obtain ⟨rfl, hexists⟩ := (mem_includePaths_of_path hwild).1 ha
        exact .path hi hwild hexists
  · rintro (hempty | ⟨hi, hwild, hexists⟩ | ⟨hi, hwild, hus, hmem, hdir⟩)
    · exact Or.inl ⟨hempty, rfl⟩
    · exact Or.inr ⟨_, hi, (mem_includePaths_of_path hwild).2 ⟨rfl, hexists⟩⟩
    · exact Or.inr ⟨_, hi, (mem_includePaths_of_wildcard hwild).2 ⟨⟨_, hus, hmem⟩, hdir⟩⟩

/-- An ignore stands for a file: it is a path that the file starts with, or a pattern for its
whole path. -/
inductive Touches (base : Text) (ignore file : Text) : Prop
  | path (hwild : hasWildcard ignore = false)
      (h : Path.startsWith file (Path.join base ignore) = true)
  | pattern {p : Glob.Pattern} (hwild : hasWildcard ignore = true)
      (hp : Glob.Pattern.parse ignore = .ok p) (h : p.matches? file = true)

theorem covers_ofEntries_iff {ignores : List Text} {file : Text} :
    (Ignores.ofEntries base ignores).covers file = true ↔
      ∃ e ∈ ignores, Touches base e file := by
  rw [Ignores.covers, Bool.or_eq_true, List.any_eq_true, List.any_eq_true]
  simp only [Ignores.ofEntries, List.mem_map, List.mem_filterMap, List.mem_filter]
  constructor
  · rintro (⟨_, ⟨e, ⟨he, hwild⟩, rfl⟩, hstarts⟩ | ⟨p, ⟨e, ⟨he, hwild⟩, hp⟩, hmatches⟩)
    · exact ⟨e, he, .path (by simpa using hwild) hstarts⟩
    · cases hparse : Glob.Pattern.parse e with
      | error => simp [hparse, Except.toOption] at hp
      | ok q =>
        rw [hparse] at hp
        cases hp
        exact ⟨e, he, .pattern hwild hparse hmatches⟩
  · rintro ⟨e, he, ⟨hwild, hstarts⟩ | ⟨hwild, hp, hmatches⟩⟩
    · exact Or.inl ⟨_, ⟨e, ⟨he, by simpa using hwild⟩, rfl⟩, hstarts⟩
    · exact Or.inr ⟨_, ⟨e, ⟨he, hwild⟩, by rw [hp]; rfl⟩, hmatches⟩

theorem isTemplateFile_iff {file : Text} :
    c.isTemplateFile file = true ↔ ∃ e, Path.extension? file = some e ∧
      ∃ x ∈ c.extensions, Config.sameIgnoringCase (x.dropWhile (· == '.')) e = true := by
  rw [Config.isTemplateFile]
  cases Path.extension? file with
  | none => simp
  | some e => simp

/-- A file that a scan finds: names lead to it from a start of the scan, it has the extension
of a template, and no ignore stands for it. -/
structure IsFound (tree : FileTree) (base : Text) (c : Config) (file : Text) : Prop where
  lies : ∃ start p names bytes, IsStart tree base c.includes start ∧
    tree.locate start = .ok p ∧
    file = FileTree.pathBelow start names ∧ tree.locate file = .ok (p ++ names) ∧
    tree.at? (p ++ names) = some (.file bytes)
  isTemplate : ∃ e, Path.extension? file = some e ∧
    ∃ x ∈ c.extensions, Config.sameIgnoringCase (x.dropWhile (· == '.')) e = true
  untouched : ∀ e ∈ c.ignores, ¬Touches base e file

theorem selects_iff {file : Text} :
    selects c (Ignores.ofEntries base c.ignores) file = true ↔
      c.isTemplateFile file = true ∧ ∀ e ∈ c.ignores, ¬Touches base e file := by
  rw [selects, Bool.and_eq_true, Bool.not_eq_true', ← Bool.not_eq_true, covers_ofEntries_iff,
    and_comm]
  simp only [not_exists, not_and]

/-- What is reached is found by following the names on the way. -/
theorem mem_files_iff_isFound (hu : tree.IsConsistent) {file : Text} :
    file ∈ (run tree base c).files ↔ IsFound tree base c file := by
  simp only [FileTree.mem_files_iff, mem_startPaths_iff_isStart, hu.mem_walked_iff,
    selects_iff, isTemplateFile_iff]
  constructor
  · rintro ⟨⟨start, hstart, p, names, bytes, hp, hat, rfl⟩, htemplate, huntouched⟩
    refine ⟨⟨start, p, names, bytes, hstart, hp, rfl, ?_, hat⟩, htemplate, huntouched⟩
    by_cases hne : names = []
    · rw [FileTree.pathBelow, if_pos hne, hne, List.append_nil, hp]
    · exact (hu.sound.reached (FileTree.mem_entries_of_at? hat)).locate_pathBelow hp
  · rintro ⟨⟨start, p, names, bytes, hstart, hp, hfile, -, hat⟩, htemplate, huntouched⟩
    exact ⟨⟨start, hstart, p, names, bytes, hp, hat, hfile⟩, htemplate, huntouched⟩

/-! ### More and fewer entries -/

/-- The lists have the same members, in any order and any number. -/
def SameEntries (xs ys : List Text) : Prop := xs ⊆ ys ∧ ys ⊆ xs

/-- The configuration `c` includes no more than `d`, and leaves out no less. -/
structure Narrower (c d : Config) : Prop where
  includes : c.includes ⊆ d.includes
  /-- No includes stand for the whole base directory. -/
  whole : c.includes = [] → d.includes = []
  ignores : d.ignores ⊆ c.ignores
  extensions : c.extensions ⊆ d.extensions

theorem IsStart.mono {includes more : List Text} {a : Text} (h : IsStart tree base includes a)
    (hmore : includes ⊆ more) (hwhole : includes = [] → more = []) :
    IsStart tree base more a := by
  cases h with
  | base hempty => exact .base (hwhole hempty)
  | path hi hwild hexists => exact .path (hmore hi) hwild hexists
  | pattern hi hwild hus ha hdir => exact .pattern (hmore hi) hwild hus ha hdir

/-- A narrower configuration finds no other files. -/
theorem files_subset_of_narrower (h : Narrower c d) :
    (run tree base c).files ⊆ (run tree base d).files := by
  intro file hfile
  simp only [FileTree.mem_files_iff, mem_startPaths_iff_isStart, selects_iff,
    isTemplateFile_iff] at hfile ⊢
  obtain ⟨⟨start, hstart, hwalked⟩, ⟨e, he, x, hx, hsame⟩, huntouched⟩ := hfile
  exact ⟨⟨start, hstart.mono h.includes h.whole, hwalked⟩, ⟨e, he, x, h.extensions hx, hsame⟩,
    fun i hi => huntouched i (h.ignores hi)⟩

theorem files_eq_of_narrower (h : Narrower c d) (h' : Narrower d c) :
    (run tree base c).files = (run tree base d).files := by
  have hc := isSortedSet_sortDistinct
    (((startPaths tree base c.includes).1.flatMap (walked tree)).filter
      (selects c (Ignores.ofEntries base c.ignores)))
  have hd := isSortedSet_sortDistinct
    (((startPaths tree base d.includes).1.flatMap (walked tree)).filter
      (selects d (Ignores.ofEntries base d.ignores)))
  refine hc.unique ⟨hd.ascending, fun file => ?_⟩
  rw [← hc.members]
  exact ⟨fun hfile => files_subset_of_narrower h' hfile,
    fun hfile => files_subset_of_narrower h hfile⟩

/-! ### The main result -/

/-- **Scanning is order-free and monotone.** Entries can be permuted and repeated. A further
ignore adds no file, a further include, beside others, takes none away, and neither does a
further extension. The files that are found are the regular files at or below a start of the
scan that have a template extension and that no ignore stands for. -/
theorem scan_unordered_and_monotone (tree : FileTree) (base : Text) (c : Config) :
    (∀ includes ignores extensions, SameEntries includes c.includes →
      SameEntries ignores c.ignores →
      SameEntries extensions c.extensions →
      (run tree base
          { c with includes := includes, ignores := ignores, extensions := extensions }).files =
        (run tree base c).files) ∧
    (∀ ignores, c.ignores ⊆ ignores →
      (run tree base { c with ignores := ignores }).files ⊆ (run tree base c).files) ∧
    (∀ includes, c.includes ≠ [] → c.includes ⊆ includes →
      (run tree base c).files ⊆ (run tree base { c with includes := includes }).files) ∧
    (∀ extensions, c.extensions ⊆ extensions →
      (run tree base c).files ⊆ (run tree base { c with extensions := extensions }).files) ∧
    (tree.IsConsistent → ∀ file, file ∈ (run tree base c).files ↔
      IsFound tree base c file) := by
  refine ⟨fun includes ignores extensions hincludes hignores hextensions => ?_,
    fun ignores hignores => ?_, fun includes hsome hincludes => ?_,
    fun extensions hextensions => ?_, fun hu file => mem_files_iff_isFound hu⟩
  · -- The empty list is special: without includes the base directory itself is walked.
    have hempty : includes = [] ↔ c.includes = [] :=
      ⟨fun h => List.subset_nil.1 (h ▸ hincludes.2),
        fun h => List.subset_nil.1 (h ▸ hincludes.1)⟩
    exact files_eq_of_narrower ⟨hincludes.1, hempty.1, hignores.2, hextensions.1⟩
      ⟨hincludes.2, hempty.2, hignores.1, hextensions.2⟩
  · exact files_subset_of_narrower ⟨fun _ => id, id, hignores, fun _ => id⟩
  · -- More includes find more only if there was one before.
    exact files_subset_of_narrower ⟨hincludes, fun h => absurd h hsome, fun _ => id,
      fun _ => id⟩
  · exact files_subset_of_narrower ⟨fun _ => id, id, fun _ => id, hextensions⟩

theorem isConsistent_twoDirectories : twoDirectories.IsConsistent := by
  have hsingle : ∀ x ∈ twoDirectories.items, ∀ y ∈ twoDirectories.items, x.1 = y.1 →
    x.2 = y.2 := by decide
  exact ⟨isSound_twoDirectories, fun p item item' h h' =>
    hsingle (p, item) h (p, item') h' rfl⟩

/-- Two includes, one of them left out again. -/
def twoIncludes : Config :=
  { includes := ["s".toList, "x".toList]
    ignores := ["x".toList]
    extensions := [".html".toList] }

/-- With the includes in another order, one of them twice, and with one more ignore, include
and extension. -/
theorem scan_unordered_and_monotone_twoDirectories :
    let files (c : Config) := (run twoDirectories ".".toList c).files
    let includes := ["x".toList, "s".toList, "x".toList]
    twoIncludes.includes ≠ [] ∧ SameEntries includes twoIncludes.includes ∧
      twoDirectories.IsConsistent ∧
      files twoIncludes = ["./s/t.html".toList] ∧
      files { twoIncludes with includes := includes } = files twoIncludes ∧
      files { twoIncludes with ignores := ["?/*".toList, "x".toList] } ⊆ files twoIncludes ∧
      "./s/t.html".toList ∈
        files { twoIncludes with includes := ["*".toList, "s".toList, "x".toList] } ∧
      "./s/t.html".toList ∈
        files { twoIncludes with extensions := ["txt".toList, ".html".toList] } ∧
      IsFound twoDirectories ".".toList twoIncludes "./s/t.html".toList ∧
      ¬IsFound twoDirectories ".".toList twoIncludes "./x/t.html".toList := by
  intro files includes
  have hsame : SameEntries includes twoIncludes.includes := ⟨by decide, by decide⟩
  have hfiles : (run twoDirectories ".".toList twoIncludes).files = ["./s/t.html".toList] :=
    FileTree.files_eq_of_pairwise (by decide) (by decide +kernel) (by decide +kernel)
  have hmem : "./s/t.html".toList ∈ (run twoDirectories ".".toList twoIncludes).files := by
    rw [hfiles]
    exact List.mem_singleton_self _
  obtain ⟨hperm, hignores, hincludes, hextensions, hfound⟩ :=
    scan_unordered_and_monotone twoDirectories ".".toList twoIncludes
  refine ⟨by decide, hsame, isConsistent_twoDirectories, hfiles,
    hperm _ _ _ hsame ⟨fun _ => id, fun _ => id⟩ ⟨fun _ => id, fun _ => id⟩,
    hignores _ (by decide), hincludes _ (by decide) (by decide) hmem,
    hextensions _ (by decide) hmem, (hfound isConsistent_twoDirectories _).1 hmem, fun h => ?_⟩
  have hmem := (hfound isConsistent_twoDirectories _).2 h
  rw [hfiles] at hmem
  revert hmem
  decide

end Scan

end TemplateCatalog
