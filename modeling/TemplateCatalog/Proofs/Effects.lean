/-
What a run does to the file tree.

A run either leaves the tree as it is, or one file receives a text and nothing else changes
(`FileTree.Receives`): the catalog in the file that is named for it (`extract_extracts`), or
the default configuration in a file that was not there (`init_makesConfig`). The main result,
`run_touches_announced`, says this of every command line; a run that ends with a fault has
changed nothing and printed no catalog, wherever the fault came up.
-/
import TemplateCatalog.Proofs.Writing

namespace TemplateCatalog

open Text

/-- In the tree `u` a path leads to a file with the text, and all the rest is as in `t`. -/
structure FileTree.Receives (t u : FileTree) (path source : Text) : Prop where
  reads : u.read path = .ok source
  only : ∃ p, u.locate path = .ok p ∧ t.WrittenAt u p (encodeText source)

theorem FileTree.receives_of_write {t u : FileTree} {path source : Text}
    (h : t.write path (encodeText source) = .ok u) : t.Receives u path source := by
  obtain ⟨p, hopens, rfl⟩ := write_eq_ok_iff.1 h
  have hwritten := hopens.writtenAt (encodeText source)
  exact ⟨hopens.read_eq hwritten, p, hopens.locate_eq hwritten, hwritten⟩

namespace CommandLine

/-! ### Extracting -/

/-- The catalog of a run. -/
def runCatalog (tree : FileTree) (options : ExtractOptions) (s : Session) : Text :=
  catalogOf (catalogStyle options s.config) (processed options (s.templates tree))

/-- The run has stopped at a fault, without a trace in the tree or on the standard output. -/
structure Outcome.Refuses (o : Outcome) (tree : FileTree) (fault : RunFault) : Prop where
  ending : o.ending = .error fault
  tree : o.tree = tree
  standardOutput : o.standardOutput = []

/-- The catalog goes to the standard output if no file is named for it. -/
structure Outcome.Prints (o : Outcome) (tree : FileTree) (catalog : Text) : Prop where
  ending : ∃ code, o.ending = .ok code
  tree : o.tree = tree
  standardOutput : o.standardOutput = catalog

/-- The catalog goes to the file that is named for it, and to no other. -/
structure Outcome.Writes (o : Outcome) (tree : FileTree) (path catalog : Text) : Prop where
  ending : ∃ code, o.ending = .ok code
  tree : tree.Receives o.tree path catalog
  standardOutput : o.standardOutput = []

/-- The file for the catalog is named on the command line, or else by the configuration, below
the root. -/
theorem outputPath_eq_some_iff {options : ExtractOptions} {s : Session} {path : Text} :
    outputPath options s = some path ↔ options.output = some path ∨
      (options.output = none ∧ ∃ name, s.config.output = some name ∧
        path = Path.join s.root name) := by
  rw [outputPath]
  cases options.output with
  | none => simp [eq_comm]
  | some path => simp

theorem outputPath_eq_none_iff {options : ExtractOptions} {s : Session} :
    outputPath options s = none ↔ options.output = none ∧ s.config.output = none := by
  rw [outputPath]
  cases options.output with
  | none => simp
  | some path => simp

/-- The catalog is put, whole, in the one file that is named on the command line, or else by
the configuration below the root; if none is named it is printed. The run stops if its
configuration cannot be used, or if that file cannot be written. -/
def Outcome.Extracts (o : Outcome) (tree : FileTree) (color : Bool)
    (options : ExtractOptions) : Prop :=
  (∃ e, Session.start tree color options.common = .error e ∧ o.Refuses tree (.config e)) ∨
  ∃ s, Session.start tree color options.common = .ok s ∧
    ((options.output = none ∧ s.config.output = none ∧
        o.Prints tree (runCatalog tree options s)) ∨
      ∃ path, (options.output = some path ∨ (options.output = none ∧
          ∃ name, s.config.output = some name ∧ path = Path.join s.root name)) ∧
        (o.Writes tree path (runCatalog tree options s) ∨
          ∃ e, tree.write path (encodeText (runCatalog tree options s)) = .error e ∧
            o.Refuses tree (.unwritableCatalog path e)))

theorem extract_extracts (tree : FileTree) (color : Bool) (options : ExtractOptions) :
    (extract tree color options).Extracts tree color options := by
  cases hs : Session.start tree color options.common with
  | error e =>
    -- A run that does not start leaves the tree as it is.
    have hrun : extract tree color options =
        { tree := tree, ending := .error (.config e) } := by
      simp only [extract, hs]
    exact Or.inl ⟨e, hs, congrArg Outcome.ending hrun, congrArg Outcome.tree hrun,
      congrArg Outcome.standardOutput hrun⟩
  | ok s =>
    -- What is delivered goes to the output path if there is one, and is written there or not.
    have hdelivers := extract_delivers hs
    rw [← runCatalog] at hdelivers
    refine Or.inr ⟨s, hs, ?_⟩
    cases hpath : outputPath options s with
    | none =>
      rw [hpath] at hdelivers
      obtain ⟨hout, htree, hend⟩ := hdelivers
      obtain ⟨hoption, hconfig⟩ := outputPath_eq_none_iff.1 hpath
      exact Or.inl ⟨hoption, hconfig, hend, htree, hout⟩
    | some path =>
      rw [hpath] at hdelivers
      obtain ⟨hout, hwrite⟩ := hdelivers
      refine Or.inr ⟨path, outputPath_eq_some_iff.1 hpath, ?_⟩
      cases hw : tree.write path (encodeText (runCatalog tree options s)) with
      | ok written =>
        rw [hw] at hwrite
        obtain ⟨rfl, hend⟩ := hwrite
        exact Or.inl ⟨hend, FileTree.receives_of_write hw, hout⟩
      | error e =>
        rw [hw] at hwrite
        obtain ⟨htree, hend⟩ := hwrite
        exact Or.inr ⟨e, rfl, hend, htree, hout⟩

theorem extract_refuses {tree : FileTree} {color : Bool} {options : ExtractOptions}
    {fault : RunFault} (h : (extract tree color options).ending = .error fault) :
    (extract tree color options).Refuses tree fault := by
  rcases extract_extracts tree color options with
    ⟨e, -, hrefuses⟩ | ⟨s, -, ⟨-, -, hrun⟩ | ⟨path, -, hrun | ⟨e, -, hrefuses⟩⟩⟩
  · exact ⟨h, hrefuses.tree, hrefuses.standardOutput⟩
  · obtain ⟨code, hend⟩ := hrun.ending
    cases hend.symm.trans h
  · obtain ⟨code, hend⟩ := hrun.ending
    cases hend.symm.trans h
  · exact ⟨h, hrefuses.tree, hrefuses.standardOutput⟩

/-! ### Checking and making a configuration -/

theorem check_tree (tree : FileTree) (color : Bool) (options : CommonOptions) :
    (check tree color options).tree = tree := by
  rw [check]
  split <;> rfl

theorem check_refuses {tree : FileTree} {color : Bool} {options : CommonOptions}
    {fault : RunFault} (h : (check tree color options).ending = .error fault) :
    (check tree color options).Refuses tree fault := by
  refine ⟨h, check_tree tree color options, ?_⟩
  rw [check] at h ⊢
  split at h
  · rfl
  · cases h

theorem isChildName_configFileName : Path.IsChildName configFileName ∧ '/' ∉ configFileName :=
  ⟨⟨not_or.2 ⟨by decide, by decide⟩, by decide⟩, by decide⟩

/-- The default configuration is put into the working directory where nothing was; else the run
stops. -/
def Outcome.MakesConfig (o : Outcome) (tree : FileTree) : Prop :=
  ((tree.at? (tree.here ++ [configFileName])).isSome ∧ o.Refuses tree .configExists) ∨
  (tree.at? (tree.here ++ [configFileName]) = none ∧ o.ending = .ok 0 ∧
    tree.Receives o.tree configFileName (Config.toJson {}))

theorem init_makesConfig (tree : FileTree) (color : Bool) :
    (init tree color).MakesConfig tree := by
  obtain ⟨hname, hslash⟩ := isChildName_configFileName
  have hexists : tree.existsAt configFileName = _ := FileTree.existsAt_name hname hslash
  cases hat : tree.at? (tree.here ++ [configFileName]) with
  | some item =>
    rw [hat, Option.isSome_some] at hexists
    have hrun : init tree color = { tree := tree, ending := .error .configExists } := by
      rw [init, if_pos hexists]
    exact Or.inl ⟨hat ▸ rfl, congrArg Outcome.ending hrun, congrArg Outcome.tree hrun,
      congrArg Outcome.standardOutput hrun⟩
  | none =>
    rw [hat, Option.isSome_none] at hexists
    have hopens : tree.Opens configFileName (tree.here ++ [configFileName]) := by
      refine FileTree.opens_name hname hslash ?_
      rw [hat]
      exact nofun
    have hwrite := FileTree.write_eq_ok_iff.2
      ⟨_, hopens, Eq.refl (tree.set _ (.file (encodeText (Config.toJson {}))))⟩
    rw [init, hexists, if_neg Bool.false_ne_true, hwrite]
    exact Or.inr ⟨hat, rfl, FileTree.receives_of_write hwrite⟩

theorem init_refuses {tree : FileTree} {color : Bool} {fault : RunFault}
    (h : (init tree color).ending = .error fault) : (init tree color).Refuses tree fault := by
  rcases init_makesConfig tree color with ⟨-, hrefuses⟩ | ⟨-, hend, -⟩
  · exact ⟨h, hrefuses.tree, hrefuses.standardOutput⟩
  · cases hend.symm.trans h

/-! ### The main result -/

/-- **Commands touch only what they announce.** Checking, the help and a command line that
cannot be run leave the tree as it is, extracting changes at most the file that is named for
the catalog, and a configuration is made only where there was nothing. A run that stops at a
fault has changed nothing and printed no catalog. -/
theorem run_touches_announced (tree : FileTree) (color : Bool) :
    (run tree color none).tree = tree ∧
    (∀ e, (refuse tree e).tree = tree) ∧
    (∀ options, (run tree color (some (.check options))).tree = tree) ∧
    (∀ options, (run tree color (some (.extract options))).Extracts tree color options) ∧
    (run tree color (some .init)).MakesConfig tree ∧
    ∀ command fault, (run tree color command).ending = .error fault →
      (run tree color command).Refuses tree fault := by
  refine ⟨rfl, fun e => by cases e <;> rfl, check_tree tree color, extract_extracts tree color,
    init_makesConfig tree color, fun command fault h => ?_⟩
  match command with
  | none => cases h
  | some (.extract options) => exact extract_refuses h
  | some (.check options) => exact check_refuses h
  | some .init => exact init_refuses h

end CommandLine

end TemplateCatalog
