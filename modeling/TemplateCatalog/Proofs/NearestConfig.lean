/-
Which configuration a directory gets.

The search asks the directories that the start path names, from the inside out
(`findConfig?_eq_firstConfig?`). It ends at the first one that holds a configuration file or a
repository, and in each the file is looked for before the repository. If there is no `..` in
the start path, what a directory holds is what the file tree has at the place that the names in
its path spell (`FileTree.existsAt_join_iff`).

What is loaded depends on the file that is found and on no other (`loadConfig_eq_ok_iff`,
`loadConfig_eq_error_iff`). The main result, `nearest_config_wins`, puts the two together.
-/
import TemplateCatalog.Proofs.Outwards
import TemplateCatalog.Proofs.Writing

namespace TemplateCatalog

/-! ### The search -/

/-- The first configuration file on the way through directories, if no repository comes before
it. `there` tells which paths lead to something. -/
def firstConfig? (there : Text → Bool) : List Text → Option Text
  | [] => none
  | d :: ds =>
    if there (Path.join d configFileName) then some (Path.join d configFileName)
    else if there (Path.join d repositoryMark) then none
    else firstConfig? there ds

theorem findConfig?_eq_firstConfig? (tree : FileTree) (start : Text) :
    findConfig? tree start = firstConfig? tree.existsAt (Path.outwards start) := by
  fun_induction findConfig? tree start with
  | case1 d file hfile =>
    obtain ⟨ds, hds⟩ := Path.exists_outwards_cons d
    rw [hds, firstConfig?, if_pos hfile]
  | case2 d file hfile hmark =>
    obtain ⟨ds, hds⟩ := Path.exists_outwards_cons d
    rw [hds, firstConfig?, if_neg hfile, if_pos hmark]
  | case3 d file hfile hmark hnone =>
    rw [Path.outwards_of_none hnone, firstConfig?, if_neg hfile, if_neg hmark, firstConfig?]
  | case4 d file hfile hmark parent hparent ih =>
    rw [Path.outwards_of_some hparent, firstConfig?, if_neg hfile, if_neg hmark, ih]

/-- Is there a configuration file in the directory? -/
def HoldsConfig (there : Text → Bool) (d : Text) : Prop :=
  there (Path.join d configFileName) = true

/-- Is the directory the one of a repository? -/
def HoldsRepository (there : Text → Bool) (d : Text) : Prop :=
  there (Path.join d repositoryMark) = true

section Search

variable {there : Text → Bool} {ds : List Text} {file : Text}

theorem firstConfig?_eq_some_iff :
    firstConfig? there ds = some file ↔
      ∃ inner d outer, ds = inner ++ d :: outer ∧ HoldsConfig there d ∧
        file = Path.join d configFileName ∧
        ∀ e ∈ inner, ¬HoldsConfig there e ∧ ¬HoldsRepository there e := by
  induction ds with
  | nil => simp [firstConfig?]
  | cons d ds ih =>
    rw [firstConfig?]
    constructor
    · intro h
      -- It is here, or there is neither a file nor a repository here and it is further out.
      split_ifs at h with hfile hmark
      · exact ⟨[], d, ds, rfl, hfile, (Option.some.inj h).symm, nofun⟩
      · obtain ⟨inner, e, outer, rfl, he, hname, hinner⟩ := ih.1 h
        exact ⟨d :: inner, e, outer, rfl, he, hname,
          List.forall_mem_cons.2 ⟨⟨hfile, hmark⟩, hinner⟩⟩
    · rintro ⟨inner, e, outer, hsplit, he, hname, hinner⟩
      cases inner with
      | nil =>
        obtain ⟨rfl, -⟩ := List.cons.inj hsplit
        exact (if_pos he).trans (congrArg _ hname.symm)
      | cons d' inner =>
        obtain ⟨rfl, hrest⟩ := List.cons.inj hsplit
        obtain ⟨⟨hfile, hmark⟩, hinner⟩ := List.forall_mem_cons.1 hinner
        have hfound := ih.2 ⟨inner, e, outer, hrest, he, hname, hinner⟩
        exact (if_neg hfile).trans ((if_neg hmark).trans hfound)

theorem firstConfig?_eq_none_iff :
    firstConfig? there ds = none ↔
      ∀ inner d outer, ds = inner ++ d :: outer → HoldsConfig there d →
        ∃ e ∈ inner, HoldsRepository there e := by
  induction ds with
  | nil => simp [firstConfig?]
  | cons d ds ih =>
    rw [firstConfig?]
    constructor
    · intro h inner e outer hsplit he
      split_ifs at h with hfile hmark
      · cases inner with
        | nil =>
          obtain ⟨rfl, -⟩ := List.cons.inj hsplit
          exact absurd he hfile
        | cons d' inner =>
          obtain ⟨rfl, -⟩ := List.cons.inj hsplit
          exact ⟨d, List.mem_cons_self, hmark⟩
      · cases inner with
        | nil =>
          obtain ⟨rfl, -⟩ := List.cons.inj hsplit
          exact absurd he hfile
        | cons d' inner =>
          obtain ⟨-, hsplit⟩ := List.cons.inj hsplit
          obtain ⟨e', he', hmark'⟩ := ih.1 h inner e outer hsplit he
          exact ⟨e', List.mem_cons_of_mem _ he', hmark'⟩
    · intro h
      split_ifs with hfile hmark
      -- Nothing stands in front of the first directory, so no repository can hide what it
      -- holds.
      · obtain ⟨e, he, -⟩ := h [] d ds rfl hfile
        cases he
      · rfl
      · refine ih.2 fun inner e outer hsplit he => ?_
        obtain ⟨e', he', hmark'⟩ := h (d :: inner) e outer (congrArg _ hsplit) he
        rcases List.mem_cons.1 he' with rfl | he'
        · exact absurd hmark' hmark
        · exact ⟨e', he', hmark'⟩

end Search

/-! ### What a directory holds -/

namespace FileTree

open TemplateCatalog.Path

variable {t : FileTree}

/-- The names that segments enter. -/
def namesOf (ss : List Text) : Place :=
  (ss.filterMap ofSegment).filterMap fun
    | .name s => some s
    | _ => none

theorem namesOf_cons_idle {s : Text} (h : IsIdle s) (ss : List Text) :
    namesOf (s :: ss) = namesOf ss := by
  have hs : ofSegment s = none := if_pos h
  rw [namesOf, List.filterMap_cons_none hs]
  rfl

theorem namesOf_cons_name {s : Text} (h : IsChildName s) (ss : List Text) :
    namesOf (s :: ss) = s :: namesOf ss := by
  rw [namesOf, List.filterMap_cons_some (ofSegment_childName h)]
  rfl

theorem placeOf_eq_namesOf (path : Text) : placeOf path = namesOf (segments path) := by
  rw [placeOf, components_eq, List.filterMap_append, front]
  split_ifs <;> rfl

/-- Segments that do not go back lead to the place of their names, if it can be reached. -/
theorem follow_concat_eq_ok_iff {p q : Place} {ss : List Text} {s : Text} (hp : t.Reached p)
    (hss : ∀ x ∈ ss, '/' ∉ x ∧ x ≠ ['.', '.']) (hs : IsChildName s) (hslash : '/' ∉ s) :
    t.follow p (ss ++ [s]) = .ok q ↔ q = p ++ (namesOf ss ++ [s]) ∧ t.Reached q := by
  induction ss generalizing p with
  | nil =>
    constructor
    · intro h
      obtain ⟨r, hr, hq⟩ := follow_cons_eq_ok_iff.1 h
      obtain rfl := follow_nil_eq_ok_iff.1 hq
      have hreached := hp.step hslash hr
      cases hr with
      | idle _ hidle => exact absurd hidle hs.not_idle
      | back _ hback => exact absurd hback hs.ne_parent
      | enter => exact ⟨rfl, hreached⟩
    · rintro ⟨rfl, hq⟩
      exact hq.follow
  | cons x ss ih =>
    obtain ⟨⟨hx, hback⟩, hss⟩ := List.forall_mem_cons.1 hss
    rw [List.cons_append, follow_cons_eq_ok_iff]
    by_cases hidle : IsIdle x
    · rw [namesOf_cons_idle hidle]
      constructor
      · rintro ⟨r, hr, hq⟩
        obtain rfl := step_idle hidle (step_eq_ok_iff.2 hr)
        exact (ih hp hss).1 hq
      · rintro ⟨rfl, hq⟩
        -- An idle segment is followed only in a directory; `p` is one, since names are entered
        -- from it.
        have hdir : t.at? p = some .directory :=
          hq.directories p (List.prefix_append _ _) (by simp)
        exact ⟨p, .idle hdir hidle, (ih hp hss).2 ⟨rfl, hq⟩⟩
    · have hname : IsChildName x := ⟨hidle, hback⟩
      have hsplit : p ++ (x :: namesOf ss ++ [s]) = p ++ [x] ++ (namesOf ss ++ [s]) := by
        rw [List.append_assoc]
        rfl
      rw [namesOf_cons_name hname, hsplit]
      constructor
      · rintro ⟨r, hr, hq⟩
        have hreached := hp.step hx hr
        cases hr with
        | idle _ h => exact absurd h hidle
        | back _ h => exact absurd h hback
        | enter => exact (ih hreached hss).1 hq
      · rintro ⟨rfl, hq⟩
        have hreached : t.Reached (p ++ [x]) := hq.of_prefix (List.prefix_append _ _)
        have hdir : t.at? p = some .directory :=
          hreached.directories p (List.prefix_append _ _) (by simp)
        exact ⟨p ++ [x], .enter hdir hname hreached.there, (ih hreached hss).2 ⟨rfl, hq⟩⟩

/-- A path without `..` to what has a name in a directory is the path of the directory with one
more segment. -/
theorem exists_locate_join_iff {d s : Text} (hback : .parent ∉ components d)
    (hs : IsChildName s) (hslash : '/' ∉ s) :
    ∃ ss, (∀ t : FileTree, ∀ q, t.locate (join d s) = .ok q ↔
      t.follow (t.start d) (ss ++ [s]) = .ok q) ∧
      (∀ x ∈ ss, '/' ∉ x ∧ x ≠ ['.', '.']) ∧ placeOf d = namesOf ss := by
  have hsabs : isAbsolute s = false := isAbsolute_of_not_mem hslash
  have hne : s ≠ [] := fun h => hs.not_idle (Or.inl h)
  -- Joining to the empty path and to the root adds no separator.
  by_cases hnil : d = []
  · refine ⟨[], fun t q => ?_, nofun, by rw [hnil]; rfl⟩
    have hjoin : join [] s = s := by simp [join]
    rw [hnil, hjoin, List.nil_append, locate_eq_ok_iff, segments_of_not_mem hslash,
      start_relative hsabs, start_relative rfl, and_iff_right hne]
  by_cases hroot : d = ['/']
  · refine ⟨[], fun t q => ?_, nofun, by rw [hroot]; rfl⟩
    have hjoin : join ['/'] s = '/' :: s := by simp [join, hsabs]
    rw [hroot, hjoin, List.nil_append, locate_root_append, segments_of_not_mem hslash,
      start_absolute rfl]
  -- All other paths are joined by one, in place of the one that they may end in.
  obtain ⟨d', hne', hcomponents, hd, hjoin⟩ := join_eq_append hnil hroot
  have hstart (t : FileTree) : t.start d = t.start d' := by
    rcases hd with rfl | rfl
    · rfl
    · exact start_append hne' _
  refine ⟨segments d', fun t q => ?_, fun x hx => ⟨not_mem_of_mem_segments hx, ?_⟩, ?_⟩
  · rw [hjoin s hsabs, locate_eq_ok_iff, hstart, start_append hne', segments_append,
      segments_of_not_mem hslash, and_iff_right (by simp)]
  · rintro rfl
    rw [← hcomponents, components_eq] at hback
    exact hback (List.mem_append_right _ (List.mem_filterMap.2 ⟨_, hx, rfl⟩))
  · rw [← placeOf_eq_namesOf, placeOf, placeOf, hcomponents]

/-- The place that the names in a path spell, from where the path starts. -/
def spelled (t : FileTree) (path : Text) : Place := t.start path ++ placeOf path

/-- What has a name in a directory whose path has no `..` is at the place that the names
spell. -/
theorem existsAt_join_iff {d s : Text} (hback : .parent ∉ components d) (hs : IsChildName s)
    (hslash : '/' ∉ s) : t.existsAt (join d s) = true ↔ t.Reached (t.spelled d ++ [s]) := by
  obtain ⟨ss, hlocate, hss, hplace⟩ := exists_locate_join_iff hback hs hslash
  have hfollow {q : Place} : t.locate (join d s) = .ok q ↔ q = t.spelled d ++ [s] ∧
      t.Reached q := by
    rw [hlocate, follow_concat_eq_ok_iff (t.reached_start d) hss hs hslash, spelled, hplace,
      List.append_assoc]
  rw [existsAt_iff]
  constructor
  · rintro ⟨q, hq, -⟩
    obtain ⟨rfl, hreached⟩ := hfollow.1 hq
    exact hreached
  · intro hreached
    exact ⟨_, hfollow.2 ⟨rfl, hreached⟩, hreached.there⟩

end FileTree

theorem isChildName_repositoryMark : Path.IsChildName repositoryMark ∧ '/' ∉ repositoryMark :=
  ⟨⟨not_or.2 ⟨by decide, by decide⟩, by decide⟩, by decide⟩

/-! ### Loading -/

/-- A configuration that can be used. -/
structure Config.IsValid (c : Config) : Prop where
  ignores : ∀ p ∈ c.ignores, ∃ pattern, Glob.Pattern.parse p = .ok pattern
  includes : ∀ p ∈ c.includes, hasWildcard p = true → ∃ pattern,
    Glob.Pattern.parse p = .ok pattern
  extensions : c.extensions ≠ []

theorem firstBadPattern?_eq_none_iff {ps : List Text} :
    firstBadPattern? ps = none ↔ ∀ p ∈ ps, ∃ pattern, Glob.Pattern.parse p = .ok pattern := by
  induction ps with
  | nil => simp [firstBadPattern?]
  | cons p ps ih =>
    rw [firstBadPattern?, List.forall_mem_cons, ← ih]
    cases Glob.Pattern.parse p <;> simp

theorem Config.fault?_eq_none_iff {c : Config} : c.fault? = none ↔ c.IsValid := by
  have hincludes : firstBadPattern? (c.includes.filter hasWildcard) = none ↔
      ∀ p ∈ c.includes, hasWildcard p = true → ∃ pattern,
        Glob.Pattern.parse p = .ok pattern := by
    simp only [firstBadPattern?_eq_none_iff, List.mem_filter, and_imp]
  rw [fault?]
  constructor
  · intro h
    split at h
    · cases h
    · rename_i hignores
      split at h
      · cases h
      · rename_i hwild
        refine ⟨firstBadPattern?_eq_none_iff.1 hignores, hincludes.1 hwild, ?_⟩
        simpa using h
  · rintro ⟨hignores, hwild, hextensions⟩
    rw [firstBadPattern?_eq_none_iff.2 hignores, hincludes.2 hwild]
    simpa using hextensions

/-- What is wrong with a configuration file. -/
inductive FaultOf (tree : FileTree) (file : Text) : LoadFault → Prop
  | unreadable {e : FileFault} (hread : tree.read file = .error e) :
      FaultOf tree file (.unreadable file e)
  | unparsable {text : Text} {e : Json.Fault} (hread : tree.read file = .ok text)
      (hparse : Config.parse text = .error e) : FaultOf tree file (.unparsable file e)
  | invalid {text : Text} {c : Config} {e : ConfigFault} (hread : tree.read file = .ok text)
      (hparse : Config.parse text = .ok c) (hfault : c.fault? = some e) :
      FaultOf tree file (.invalid e)

section Load

variable {tree : FileTree} {file start : Text} {c : Config} {fault : LoadFault}

theorem loadFile_eq_ok_iff :
    loadFile tree file = .ok c ↔ ∃ text, tree.read file = .ok text ∧
      Config.parse text = .ok c ∧ c.IsValid := by
  simp only [← Config.fault?_eq_none_iff]
  rw [loadFile]
  constructor
  · intro h
    split at h
    · cases h
    · rename_i hread
      split at h
      · cases h
      · rename_i hparse
        split at h
        · cases h
        · rename_i hnone
          cases h
          exact ⟨_, hread, hparse, hnone⟩
  · rintro ⟨text, hread, hparse, hnone⟩
    simp only [hread, hparse, hnone]

theorem loadFile_eq_error_iff :
    loadFile tree file = .error fault ↔ FaultOf tree file fault := by
  rw [loadFile]
  constructor
  · intro h
    split at h
    · rename_i hread
      exact Except.error.inj h ▸ .unreadable hread
    · rename_i hread
      split at h
      · rename_i hparse
        exact Except.error.inj h ▸ .unparsable hread hparse
      · rename_i hparse
        split at h
        · rename_i hfault
          exact Except.error.inj h ▸ .invalid hread hparse hfault
        · cases h
  · rintro (hread | ⟨hread, hparse⟩ | ⟨hread, hparse, hfault⟩)
    · simp only [hread]
    · simp only [hread, hparse]
    · simp only [hread, hparse, hfault]

theorem loadConfig_eq_ok_iff {loaded : LoadedConfig} :
    loadConfig tree start = .ok loaded ↔
      (findConfig? tree start = none ∧ loaded = ⟨{}, false⟩) ∨
        ∃ file text, findConfig? tree start = some file ∧ tree.read file = .ok text ∧
          Config.parse text = .ok loaded.config ∧ loaded.config.IsValid ∧
            loaded.fromFile = true := by
  rw [loadConfig]
  cases findConfig? tree start with
  | none =>
    constructor
    · intro h
      exact Or.inl ⟨rfl, (Except.ok.inj h).symm⟩
    · rintro (⟨-, rfl⟩ | ⟨_, _, hsome, -⟩)
      · rfl
      · cases hsome
  | some file =>
    -- A file that is loaded is marked as such.
    have hmap : (loadFile tree file).map (⟨·, true⟩) = .ok loaded ↔
        loadFile tree file = .ok loaded.config ∧ loaded.fromFile = true := by
      obtain ⟨config, fromFile⟩ := loaded
      cases loadFile tree file <;> simp [Except.map, eq_comm]
    simp only [hmap, loadFile_eq_ok_iff]
    constructor
    · rintro ⟨⟨text, hread, hparse, hvalid⟩, hfile⟩
      exact Or.inr ⟨file, text, rfl, hread, hparse, hvalid, hfile⟩
    · rintro (⟨hnone, -⟩ | ⟨_, text, hsome, hread, hparse, hvalid, hfile⟩)
      · cases hnone
      · cases hsome
        exact ⟨⟨text, hread, hparse, hvalid⟩, hfile⟩

theorem loadConfig_eq_error_iff :
    loadConfig tree start = .error fault ↔
      ∃ file, findConfig? tree start = some file ∧ FaultOf tree file fault := by
  rw [loadConfig]
  cases findConfig? tree start with
  | none => simp
  | some file =>
    have hmap : (loadFile tree file).map (LoadedConfig.mk · true) = .error fault ↔
        loadFile tree file = .error fault := by
      cases loadFile tree file <;> simp [Except.map]
    simp only [hmap, loadFile_eq_error_iff, Option.some.injEq, exists_eq_left']

end Load

/-- **The nearest configuration wins.** The directories that are asked are the start path and
its parents, each without the last component of the one before, down to the empty path or the
root. The first configuration file among them is found, unless a directory before it holds a
repository; then nothing is found. If there is no `..` in the start path, what these
directories hold is what lies at the places that the names in their paths spell. The file that
is found is the only one that counts: either it is read, parsed and valid, and its
configuration is used, or the run fails with what is wrong with it. The defaults hold only if
none is found. -/
theorem nearest_config_wins (tree : FileTree) (start : Text) :
    Path.IsAscent start (Path.outwards start) ∧
      (∀ file, findConfig? tree start = some file ↔
        ∃ inner d outer, Path.outwards start = inner ++ d :: outer ∧
          HoldsConfig tree.existsAt d ∧
          file = Path.join d configFileName ∧
          ∀ e ∈ inner, ¬HoldsConfig tree.existsAt e ∧ ¬HoldsRepository tree.existsAt e) ∧
      (findConfig? tree start = none ↔
        ∀ inner d outer, Path.outwards start = inner ++ d :: outer →
          HoldsConfig tree.existsAt d →
          ∃ e ∈ inner, HoldsRepository tree.existsAt e) ∧
      (.parent ∉ Path.components start → ∀ d ∈ Path.outwards start,
        (HoldsConfig tree.existsAt d ↔ tree.Reached (tree.spelled d ++ [configFileName])) ∧
          (HoldsRepository tree.existsAt d ↔
            tree.Reached (tree.spelled d ++ [repositoryMark]))) ∧
      (∀ loaded, loadConfig tree start = .ok loaded ↔
        (findConfig? tree start = none ∧ loaded = ⟨{}, false⟩) ∨
          ∃ file text, findConfig? tree start = some file ∧ tree.read file = .ok text ∧
            Config.parse text = .ok loaded.config ∧ loaded.config.IsValid ∧
              loaded.fromFile = true) ∧
      (∀ fault, loadConfig tree start = .error fault ↔
        ∃ file, findConfig? tree start = some file ∧ FaultOf tree file fault) := by
  refine ⟨Path.isAscent_outwards start, fun file => ?_, ?_, fun hback d hd => ?_,
    fun loaded => ?_, fun fault => ?_⟩
  · rw [findConfig?_eq_firstConfig?, firstConfig?_eq_some_iff]
  · rw [findConfig?_eq_firstConfig?, firstConfig?_eq_none_iff]
  · -- The directories around a path without `..` have none in theirs.
    have hdback : .parent ∉ Path.components d := fun h =>
      hback ((Path.components_prefix_of_mem_outwards hd).subset h)
    obtain ⟨hfile, hfileslash⟩ := CommandLine.isChildName_configFileName
    obtain ⟨hmark, hmarkslash⟩ := isChildName_repositoryMark
    exact ⟨FileTree.existsAt_join_iff hdback hfile hfileslash,
      FileTree.existsAt_join_iff hdback hmark hmarkslash⟩
  · exact loadConfig_eq_ok_iff
  · exact loadConfig_eq_error_iff

/-- The directory with the configuration is the working directory. -/
def workingTree : FileTree := { nestedTree with working := "/a".toList }

/-- A directory with a configuration, and a repository inside of it. -/
def nestedRepository : FileTree where
  items := nestedTree.items ++ [(["a".toList, "b".toList, repositoryMark], .directory)]

theorem outwards_absolute :
    Path.outwards "/a/b".toList = ["/a/b".toList, "/a".toList, "/".toList] := by
  have hinner : Path.parent? "/a/b".toList = some "/a".toList := by decide
  have houter : Path.parent? "/a".toList = some "/".toList := by decide
  rw [Path.outwards_of_some hinner, Path.outwards_of_some houter,
    Path.outwards_of_none (by decide)]

theorem outwards_relative : Path.outwards "b".toList = ["b".toList, []] := by
  have hparent : Path.parent? "b".toList = some [] := by decide
  rw [Path.outwards_of_some hparent, Path.outwards_of_none (by decide)]

/-- The configuration around a directory is found, by an absolute path and from the working
directory, though it is an empty file and cannot be parsed. With a repository in between it is
not found, and the defaults hold. -/
theorem nearest_config_wins_nested :
    .parent ∉ Path.components "/a/b".toList ∧
      workingTree.Reached (workingTree.spelled "/a".toList ++ [configFileName]) ∧
      findConfig? workingTree "/a/b".toList = some "/a/.tplxrc.json".toList ∧
      findConfig? workingTree "b".toList = some ".tplxrc.json".toList ∧
      loadConfig workingTree "/a/b".toList =
        .error (.unparsable "/a/.tplxrc.json".toList .truncated) ∧
      loadConfig nestedRepository "/a/b".toList = .ok ⟨{}, false⟩ := by
  have hback : .parent ∉ Path.components "/a/b".toList := by decide
  obtain ⟨-, hsome, -, hplaces, -, hfault⟩ := nearest_config_wins workingTree "/a/b".toList
  obtain ⟨-, hrelative, -⟩ := nearest_config_wins workingTree "b".toList
  obtain ⟨-, -, hnone, -, hload, -⟩ := nearest_config_wins nestedRepository "/a/b".toList
  rw [outwards_absolute] at hsome hplaces hnone
  rw [outwards_relative] at hrelative
  have hconfig : HoldsConfig workingTree.existsAt "/a".toList := by rw [HoldsConfig]; decide
  have hreached := ((hplaces hback "/a".toList (by simp)).1).1 hconfig
  have hfound : findConfig? workingTree "/a/b".toList = some "/a/.tplxrc.json".toList := by
    refine (hsome _).2 ⟨["/a/b".toList], "/a".toList, ["/".toList], rfl, hconfig, by decide,
      ?_⟩
    rw [List.forall_mem_singleton]
    exact ⟨by rw [HoldsConfig]; decide, by rw [HoldsRepository]; decide⟩
  have hhere : findConfig? workingTree "b".toList = some ".tplxrc.json".toList := by
    refine (hrelative _).2 ⟨["b".toList], [], [], rfl, by rw [HoldsConfig]; decide, by decide,
      ?_⟩
    rw [List.forall_mem_singleton]
    exact ⟨by rw [HoldsConfig]; decide, by rw [HoldsRepository]; decide⟩
  have hread : workingTree.read "/a/.tplxrc.json".toList = .ok [] := rfl
  have hparse : FaultOf workingTree "/a/.tplxrc.json".toList
      (.unparsable "/a/.tplxrc.json".toList .truncated) := .unparsable hread rfl
  refine ⟨hback, hreached, hfound, hhere, (hfault _).2 ⟨_, hfound, hparse⟩,
    (hload _).2 (Or.inl ⟨?_, rfl⟩)⟩
  refine hnone.2 fun inner d outer hsplit hd => ?_
  -- The start directory holds the repository, and no configuration.
  cases inner with
  | nil =>
    obtain ⟨rfl, -⟩ := List.cons.inj hsplit
    rw [HoldsConfig] at hd
    exact absurd hd (by decide)
  | cons e inner =>
    obtain ⟨rfl, -⟩ := List.cons.inj hsplit
    exact ⟨_, List.mem_cons_self, by rw [HoldsRepository]; decide⟩

end TemplateCatalog
