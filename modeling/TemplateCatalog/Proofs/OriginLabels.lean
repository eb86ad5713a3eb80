/-
What origins tell apart.

An origin is made of the components that label a path (`Path.labelled`): those below the root,
if the path lies there, and else all of it. They can be read off the origin again
(`Path.origin_eq_iff`). So origins tell files apart that all lie below the root, or that all
lie elsewhere; but a file elsewhere may be written as another one is below the root, and then
both have one origin. The main result, `same_origin_iff`, says that this is the only way, for
the templates of any run.
-/
import TemplateCatalog.Proofs.PathComponents
import TemplateCatalog.Proofs.Runs

namespace TemplateCatalog

namespace Path

/-! ### The pieces of a label -/

/-- The components of a path that mean something. -/
def plain (p : Text) : List Component := (components p).filter (· ≠ .current)

/-- The components that label a file. -/
def labelled (root file : Text) : List Component := (below root file).filter (· ≠ .current)

/-- The components of a path without a name: there are none, or only the root of the file
system. -/
def IsBare (l : List Component) : Prop := l = [] ∨ l = [.root]

instance (l : List Component) : Decidable (IsBare l) :=
  inferInstanceAs (Decidable (l = [] ∨ l = [.root]))

/-- A component that gives a piece of a label. -/
def IsLabel (c : Component) : Prop := IsValid c ∧ c ≠ .current

theorem labelPiece_inj {c d : Component} (hc : IsLabel c) (hd : IsLabel d)
    (h : labelPiece c = labelPiece d) : c = d := by
  obtain ⟨hcvalid, hcurrent⟩ := hc
  obtain ⟨hdvalid, hdcurrent⟩ := hd
  -- The root is written as the empty text and `..` as itself, and neither is a name.
  cases c with
  | current => exact absurd rfl hcurrent
  | root =>
    cases d with
    | root => rfl
    | current => exact absurd rfl hdcurrent
    | parent => cases h
    | name s => exact absurd (Or.inl (Option.some.inj h).symm) hdvalid.1.not_idle
  | parent =>
    cases d with
    | root => cases h
    | current => exact absurd rfl hdcurrent
    | parent => rfl
    | name s => exact absurd (Option.some.inj h).symm hdvalid.1.ne_parent
  | name s =>
    cases d with
    | root => exact absurd (Or.inl (Option.some.inj h)) hcvalid.1.not_idle
    | current => exact absurd rfl hdcurrent
    | parent => exact absurd (Option.some.inj h) hcvalid.1.ne_parent
    | name s' => exact congrArg _ (Option.some.inj h)

/-- The text of a piece. -/
def pieceText (c : Component) : Text := (labelPiece c).getD []

theorem labelPiece_eq {c : Component} (h : IsLabel c) : labelPiece c = some (pieceText c) := by
  cases c with
  | current => exact absurd rfl h.2
  | root => rfl
  | parent => rfl
  | name s => rfl

theorem slash_not_mem_pieceText {c : Component} (h : IsLabel c) : '/' ∉ pieceText c := by
  cases c with
  | current => exact absurd rfl h.2
  | root => exact List.not_mem_nil
  | parent => decide
  | name s => exact h.1.2

theorem isLabel_of_mem_labelled {root file : Text} {c : Component}
    (h : c ∈ labelled root file) : IsLabel c := by
  obtain ⟨hbelow, hcurrent⟩ := List.mem_filter.1 h
  refine ⟨isValid_of_mem_components (p := file) ?_, by simpa using hcurrent⟩
  rw [below] at hbelow
  split_ifs at hbelow
  · exact List.mem_of_mem_drop hbelow
  · exact hbelow

/-! ### Labels -/

theorem origin_eq_intercalate (root file : Text) :
    origin root file = ['/'].intercalate ((labelled root file).map pieceText) := by
  have hpieces :
      (below root file).filterMap labelPiece = (labelled root file).filterMap labelPiece := by
    rw [labelled, List.filterMap_filter]
    refine List.filterMap_congr fun c _ => ?_
    by_cases hc : c = .current
    · rw [hc]
      rfl
    · simp [hc]
  rw [origin, hpieces, ← List.filterMap_eq_map]
  exact congrArg _ (List.filterMap_congr fun c hc =>
    labelPiece_eq (isLabel_of_mem_labelled hc))

theorem map_pieceText_inj {l m : List Component} (hl : ∀ c ∈ l, IsLabel c)
    (hm : ∀ c ∈ m, IsLabel c) (h : l.map pieceText = m.map pieceText) : l = m := by
  induction l generalizing m with
  | nil => exact (List.map_eq_nil_iff.1 h.symm).symm
  | cons c l ih =>
    cases m with
    | nil => cases h
    | cons d m =>
      obtain ⟨hc, hl⟩ := List.forall_mem_cons.1 hl
      obtain ⟨hd, hm⟩ := List.forall_mem_cons.1 hm
      obtain ⟨hcd, h⟩ := List.cons.inj h
      rw [ih hl hm h, labelPiece_inj hc hd (by rw [labelPiece_eq hc, labelPiece_eq hd, hcd])]

/-- The components of a label that is not empty can be read off it. -/
theorem splitOn_label {l : List Component} (hl : ∀ c ∈ l, IsLabel c) (hne : l ≠ []) :
    (['/'].intercalate (l.map pieceText)).splitOn '/' = l.map pieceText := by
  refine List.splitOn_intercalate '/' (fun s hs => ?_) (by simpa using hne)
  obtain ⟨c, hc, rfl⟩ := List.mem_map.1 hs
  exact slash_not_mem_pieceText (hl c hc)

/-- Only without a name the label is empty. -/
theorem intercalate_eq_nil_iff {l : List Component} (hl : ∀ c ∈ l, IsLabel c) :
    ['/'].intercalate (l.map pieceText) = [] ↔ IsBare l := by
  constructor
  · intro h
    by_cases hne : l = []
    · exact Or.inl hne
    · have hone : [pieceText .root] = l.map pieceText := by
        rw [← splitOn_label hl hne, h]
        rfl
      have hroot : ∀ c ∈ [Component.root], IsLabel c := fun c hc =>
        List.mem_singleton.1 hc ▸ ⟨trivial, nofun⟩
      exact Or.inr (map_pieceText_inj hroot hl hone).symm
  · rintro (rfl | rfl) <;> rfl

/-- Two files have one origin if the same components label them, or if neither has a name. -/
theorem origin_eq_iff {root file other : Text} :
    origin root file = origin root other ↔
      labelled root file = labelled root other ∨
        IsBare (labelled root file) ∧ IsBare (labelled root other) := by
  have hlabel (f : Text) : ∀ c ∈ labelled root f, IsLabel c :=
    fun c hc => isLabel_of_mem_labelled hc
  rw [origin_eq_intercalate, origin_eq_intercalate]
  constructor
  · intro h
    -- A label that is not empty can be split again; the empty one comes from the root, too.
    by_cases hbare : IsBare (labelled root file)
    · refine Or.inr ⟨hbare, (intercalate_eq_nil_iff (hlabel other)).1 ?_⟩
      rw [← h, (intercalate_eq_nil_iff (hlabel file)).2 hbare]
    · have hbare' : ¬IsBare (labelled root other) := by
        rwa [← intercalate_eq_nil_iff (hlabel other), ← h,
          intercalate_eq_nil_iff (hlabel file)]
      refine Or.inl (map_pieceText_inj (hlabel file) (hlabel other) ?_)
      rw [← splitOn_label (hlabel file) (mt Or.inl hbare), h,
        splitOn_label (hlabel other) (mt Or.inl hbare')]
  · rintro (h | ⟨hf, ho⟩)
    · rw [h]
    · rw [(intercalate_eq_nil_iff (hlabel file)).2 hf,
        (intercalate_eq_nil_iff (hlabel other)).2 ho]

/-! ### Below the root and elsewhere -/

theorem plain_of_startsWith {root file : Text} (h : startsWith file root = true) :
    plain file = plain root ++ labelled root file := by
  obtain ⟨rest, hrest⟩ := startsWith_iff.1 h
  rw [plain, plain, labelled, below, if_pos h, ← List.filter_append, ← hrest, List.drop_left]

theorem labelled_of_not_startsWith {root file : Text} (h : ¬startsWith file root = true) :
    labelled root file = plain file := by
  rw [labelled, below, if_neg h, plain]

/-- On either side of the root the components of a label tell paths apart. -/
theorem plain_eq_of_labelled_eq {root file other : Text}
    (hside : startsWith file root = startsWith other root)
    (h : labelled root file = labelled root other) : plain file = plain other := by
  by_cases hroot : startsWith file root = true
  · have hother : startsWith other root = true := hside.symm.trans hroot
    rw [plain_of_startsWith hroot, plain_of_startsWith hother, h]
  · have hother : ¬startsWith other root = true := fun hother => hroot (hside.trans hother)
    rw [← labelled_of_not_startsWith hroot, h, labelled_of_not_startsWith hother]

end Path

/-! ### The templates of a run -/

namespace CommandLine

theorem origin_of_mem_templates {tree : FileTree} {s : Session} {f : TemplateFile}
    (h : f ∈ s.templates tree) : f.origin = Path.origin s.root f.path := by
  obtain ⟨path, -, rfl⟩ := List.mem_map.1 h
  rcases TemplateFile.load_cases tree s.root path with
    ⟨_, _, _, _, h⟩ | ⟨_, _, _, _, h⟩ | ⟨_, _, h⟩ <;>
    rw [h]

/-- **Which templates have one origin.** If the paths of two templates name different files,
the two have one origin exactly if one path lies below the root, the other does not, and
without `.` the second is written like the first is below the root; paths without a name apart,
such as that of the root itself. -/
theorem same_origin_iff {tree : FileTree} {s : Session} {f g : TemplateFile}
    (hf : f ∈ s.templates tree) (hg : g ∈ s.templates tree)
    (hne : Path.plain f.path ≠ Path.plain g.path) : f.origin = g.origin ↔
      Path.startsWith f.path s.root ≠ Path.startsWith g.path s.root ∧
          Path.labelled s.root f.path = Path.labelled s.root g.path ∨
        Path.IsBare (Path.labelled s.root f.path) ∧
          Path.IsBare (Path.labelled s.root g.path) := by
  rw [origin_of_mem_templates hf, origin_of_mem_templates hg, Path.origin_eq_iff]
  refine or_congr_left ⟨fun h => ⟨fun hside => ?_, h⟩, And.right⟩
  exact hne (Path.plain_eq_of_labelled_eq hside h)

/-- Two directories with templates of one name. -/
def twoTemplates : FileTree where
  items :=
    [(["a.html".toList], .file .empty), (["site".toList], .directory),
      (["site".toList, ".git".toList], .directory),
      (["site".toList, "a.html".toList], .file .empty),
      (["site".toList, "b".toList], .directory),
      (["site".toList, "b".toList, "a.html".toList], .file .empty)]

/-- The files of a run with the root `site`. -/
def filesBelowSite (files : List Text) : CommonOptions :=
  { files := files, sourceRoot := some "site".toList }

theorem start_twoTemplates {files : List Text} (hne : files ≠ []) :
    Session.start twoTemplates false (filesBelowSite files) =
      .ok ⟨"site".toList, {}, Text.sortDistinct files, 0, []⟩ := by
  have hload : loadConfig twoTemplates "site".toList = .ok ⟨{}, false⟩ := by
    rw [loadConfig, findConfig?, if_neg (by decide), if_pos (by decide)]
  have hempty : files.isEmpty = false := by simpa using hne
  simp only [Session.start, filesBelowSite, Option.getD_some, hload, hempty]
  rfl

/-- The file of a run, loaded. -/
theorem load_mem_templates (files : List Text) (path : Text) (h : path ∈ files) :
    TemplateFile.load twoTemplates "site".toList path ∈
      Session.templates ⟨"site".toList, {}, Text.sortDistinct files, 0, []⟩ twoTemplates :=
  List.mem_map.2 ⟨path, ((isSortedSet_sortDistinct files).members path).2 h, rfl⟩

/-- Below the root two templates of one name have different origins. -/
theorem same_origin_iff_belowRoot :
    ∃ s f g, Session.start twoTemplates false
        (filesBelowSite ["site/a.html".toList, "site/b/a.html".toList]) = .ok s ∧
      f ∈ s.templates twoTemplates ∧ g ∈ s.templates twoTemplates ∧
      Path.plain f.path ≠ Path.plain g.path ∧ f.origin ≠ g.origin := by
  have hf := load_mem_templates ["site/a.html".toList, "site/b/a.html".toList]
    "site/a.html".toList (by decide)
  have hg := load_mem_templates ["site/a.html".toList, "site/b/a.html".toList]
    "site/b/a.html".toList (by decide)
  refine ⟨_, _, _, start_twoTemplates (by simp), hf, hg, by decide, ?_⟩
  rw [Ne, same_origin_iff hf hg (by decide)]
  decide

/-- A file beside the root has the origin of the file with its name below the root. -/
theorem same_origin_iff_besideRoot :
    ∃ s f g, Session.start twoTemplates false
        (filesBelowSite ["a.html".toList, "site/a.html".toList]) = .ok s ∧
      f ∈ s.templates twoTemplates ∧ g ∈ s.templates twoTemplates ∧
      Path.plain f.path ≠ Path.plain g.path ∧ f.origin = g.origin := by
  have hf := load_mem_templates ["a.html".toList, "site/a.html".toList] "a.html".toList
    (by decide)
  have hg := load_mem_templates ["a.html".toList, "site/a.html".toList] "site/a.html".toList
    (by decide)
  exact ⟨_, _, _, start_twoTemplates (by simp), hf, hg, by decide, by decide⟩

end CommandLine

end TemplateCatalog
