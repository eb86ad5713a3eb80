/-
Scanning a tree below one root and below another.

What a scan finds below a root is found by the paths that the root goes on to (`Root.Below`):
the place that such a path leads to and the components behind those of the root do not depend
on the root. So for each path that one scan meets the other scan meets a twin of it, from the
includes (`Root.includePaths_twin`) through the patterns (`Root.expands_twin`) to the files of
the walks (`Root.walked_twin`), and twins have one origin and are selected alike. The main
result, `origins_eq_of_relocation`, says that the origins that are found are the same.

Two things look at the text of the root. An ignore with wildcards is compared with the whole
path of a file, so the roots must agree in what it leaves out. And an include with wildcards is
read as one pattern together with the root, which must have no wildcards of its own and no `.`
in front, for that gets lost on the way.
-/
import TemplateCatalog.Proofs.Rescan
import TemplateCatalog.Proofs.Surroundings

namespace TemplateCatalog

open TemplateCatalog.Path

/-! ### Roots -/

/-- In the tree whatever is listed can be reached. -/
def FileTree.IsSound (u : FileTree) : Prop := ∀ p item, (p, item) ∈ u.items → u.Reached p

theorem FileTree.IsSound.reached {u : FileTree} (hu : u.IsSound) {p : Place} {item : Item}
    (h : (p, item) ∈ u.entries) : u.Reached p := by
  rcases mem_entries_iff.1 h with ⟨hp, -⟩ | ⟨-, hmem⟩
  · exact u.reached_here.of_prefix hp
  · exact hu p item hmem

/-- A root directory: the path of it, the files that the path is followed in, and the place
that it leads to. -/
structure Root where
  tree : FileTree
  path : Text
  place : Place

namespace Root

/-- What lies below the root is the tree `u`. -/
structure Holds (r : Root) (u : FileTree) : Prop where
  located : r.tree.locate r.path = .ok r.place
  there : ∀ q, r.tree.at? (r.place ++ q) = u.at? q
  listed : ∀ q item, q ≠ [] → ((r.place ++ q, item) ∈ r.tree.entries ↔ (q, item) ∈ u.entries)

variable {r : Root} {u : FileTree} {q : Place}

/-! ### Following segments below a root -/

/-- Where segments do not climb out of the root, they do not lead back from it. -/
theorem ne_nil_of_climbs {s : Text} {ss : List Text} (h : climbs q.length (s :: ss) = false)
    (hs : s = ['.', '.']) : q ≠ [] := by
  rintro rfl
  rw [hs, climbs_back] at h
  cases h

theorem climbs_of_steps {s : Text} {ss : List Text} {q' : Place}
    (h : climbs q.length (s :: ss) = false) (hstep : u.Steps q s q') :
    climbs q'.length ss = false := by
  cases hstep with
  | idle _ hidle => rwa [climbs_idle hidle] at h
  | back _ hparent =>
    rw [hparent, climbs_back, Bool.or_eq_false_iff] at h
    rw [List.length_dropLast]
    exact h.2
  | enter _ hname =>
    rw [climbs_name hname] at h
    rwa [List.length_append]

namespace Holds

/-- Unless it leads back from the root itself, a step below the root is a step of the tree
there. -/
theorem steps (h : r.Holds u) {s : Text} {q' : Place} (hs : u.Steps q s q')
    (hback : s = ['.', '.'] → q ≠ []) : r.tree.Steps (r.place ++ q) s (r.place ++ q') := by
  cases hs with
  | idle hq hs => exact .idle (h.there q ▸ hq) hs
  | back hq hs =>
    rw [← List.dropLast_append_of_ne_nil (hback hs)]
    exact .back (h.there q ▸ hq) hs
  | enter hq hs there =>
    rw [← List.append_assoc]
    exact .enter (h.there q ▸ hq) hs (by rwa [List.append_assoc, h.there])

/-- Unless it leads back from the root itself, a step stays below the root. -/
theorem steps_cases (h : r.Holds u) {s : Text} {p : Place}
    (hs : r.tree.Steps (r.place ++ q) s p) (hback : s = ['.', '.'] → q ≠ []) : ∃ q',
    p = r.place ++ q' ∧ u.Steps q s q' := by
  cases hs with
  | idle hq hs => exact ⟨q, rfl, .idle (h.there q ▸ hq) hs⟩
  | back hq hs =>
    exact ⟨_, List.dropLast_append_of_ne_nil (hback hs), .back (h.there q ▸ hq) hs⟩
  | enter hq hs there =>
    rw [List.append_assoc, h.there] at there
    exact ⟨_, List.append_assoc .., .enter (h.there q ▸ hq) hs there⟩

/-- Segments that do not climb out of the root lead on below it as in the tree there. -/
theorem follow (h : r.Holds u) {ss : List Text} {q' : Place} (hss : u.follow q ss = .ok q')
    (hclimbs : climbs q.length ss = false) :
    r.tree.follow (r.place ++ q) ss = .ok (r.place ++ q') := by
  induction ss generalizing q with
  | nil =>
    obtain rfl := FileTree.follow_nil_eq_ok_iff.1 hss
    rfl
  | cons s ss ih =>
    obtain ⟨p, hp, hss⟩ := FileTree.follow_cons_eq_ok_iff.1 hss
    have hstep := h.steps hp (ne_nil_of_climbs hclimbs)
    exact FileTree.follow_cons_eq_ok_iff.2 ⟨_, hstep, ih hss (climbs_of_steps hclimbs hp)⟩

/-- Segments that do not climb out of the root lead to what lies below it. -/
theorem follow_cases (h : r.Holds u) {ss : List Text} {p : Place}
    (hss : r.tree.follow (r.place ++ q) ss = .ok p) (hclimbs : climbs q.length ss = false) :
    ∃ q', p = r.place ++ q' ∧ u.follow q ss = .ok q' := by
  induction ss generalizing q with
  | nil => exact ⟨q, FileTree.follow_nil_eq_ok_iff.1 hss, rfl⟩
  | cons s ss ih =>
    obtain ⟨_, hs, hss⟩ := FileTree.follow_cons_eq_ok_iff.1 hss
    obtain ⟨q', rfl, hq'⟩ := h.steps_cases hs (ne_nil_of_climbs hclimbs)
    obtain ⟨q'', rfl, hq''⟩ := ih hss (climbs_of_steps hclimbs hq')
    exact ⟨q'', rfl, FileTree.follow_cons_eq_ok_iff.2 ⟨q', hq', hq''⟩⟩

theorem mem_descendants_iff (h : r.Holds u) {names : Place} {item : Item} :
    (names, item) ∈ r.tree.descendants (r.place ++ q) ↔
      names ≠ [] ∧ (q ++ names, item) ∈ u.entries := by
  rw [FileTree.mem_descendants_iff, List.append_assoc]
  exact and_congr_right fun hne => h.listed _ _ (List.append_ne_nil_of_right_ne_nil _ hne)

end Holds

/-! ### Paths below a root -/

/-- The path `a` goes on from the root with the components `cs`, and leads to the place `q`
below it. -/
structure Below (r : Root) (q : Place) (cs : List Component) (a : Text) : Prop where
  located : r.tree.locate a = .ok (r.place ++ q)
  components : Path.components a = Path.components r.path ++ cs
  moved : cs = [] → q = []

theorem Holds.below (h : r.Holds u) : r.Below [] [] r.path :=
  ⟨by rw [List.append_nil, h.located], (List.append_nil _).symm, fun _ => rfl⟩

/-- Segments without a component lead nowhere else. -/
theorem follow_eq_of_idle {ss : List Text} {q' : Place} (hss : ss.filterMap ofSegment = [])
    (h : u.follow q ss = .ok q') : q' = q := by
  induction ss generalizing q with
  | nil => exact FileTree.follow_nil_eq_ok_iff.1 h
  | cons s ss ih =>
    obtain ⟨p, hp, h⟩ := FileTree.follow_cons_eq_ok_iff.1 h
    have hs : ofSegment s = none := List.filterMap_eq_nil_iff.1 hss s List.mem_cons_self
    have hidle : IsIdle s := by
      rw [ofSegment] at hs
      split_ifs at hs with hidle
      exact hidle
    rw [List.filterMap_cons_none hs] at hss
    rw [ih hss h, FileTree.step_idle hidle (FileTree.step_eq_ok_iff.2 hp)]

namespace Below

variable {cs : List Component} {a : Text}

theorem join (h : r.Holds u) (ha : r.Below q cs a) {e : Text} {q' : Place}
    (he : isAbsolute e = false) (hfollow : u.follow q (segments e) = .ok q')
    (hclimbs : climbs q.length (segments e) = false) :
    r.Below q' (cs ++ (segments e).filterMap ofSegment) (Path.join a e) := by
  have hne := (FileTree.locate_eq_ok_iff.1 ha.located).1
  refine ⟨(FileTree.locate_join ha.located he).2 (h.follow hfollow hclimbs), ?_,
    fun hnil => ?_⟩
  · rw [components_join hne he, ha.components, List.append_assoc]
  · obtain ⟨hcs, hss⟩ := List.append_eq_nil_iff.1 hnil
    rw [follow_eq_of_idle hss hfollow, ha.moved hcs]

/-- A single segment leads on from a path below the root. -/
theorem step (h : r.Holds u) (ha : r.Below q cs a) {s : Text} {q' : Place} (hs : '/' ∉ s)
    (hstep : u.Steps q s q') (hback : s = ['.', '.'] → q ≠ []) :
    r.Below q' (cs ++ [s].filterMap ofSegment) (Path.join a s) := by
  -- Only `..` climbs, and by `hback` it does not leave the root.
  have hclimbs : climbs q.length [s] = false := by
    cases hstep with
    | idle _ hidle => exact climbs_idle hidle _ []
    | back _ hparent =>
      have hlength := List.length_pos_of_ne_nil (hback hparent)
      rw [hparent, climbs_back, climbs, Bool.or_false, beq_eq_false_iff_ne]
      omega
    | enter _ hname => exact climbs_name hname _ []
  have hfollow : u.follow q [s] = .ok q' := FileTree.follow_cons_eq_ok_iff.2 ⟨q', hstep, rfl⟩
  rw [← segments_of_not_mem hs] at hclimbs hfollow ⊢
  exact ha.join h (isAbsolute_of_not_mem hs) hfollow hclimbs

/-- The names on the way to what is listed lead there. -/
theorem descend (h : r.Holds u) (hu : u.IsSound) (ha : r.Below q cs a) {names : Place}
    {item : Item} (hne : names ≠ []) (hmem : (q ++ names, item) ∈ u.entries) :
    r.Below (q ++ names) (cs ++ names.map .name) (Path.join a (['/'].intercalate names)) := by
  have hreached := hu.reached hmem
  have hnames : ∀ s ∈ names, IsChildName s ∧ '/' ∉ s := fun s hs =>
    hreached.names s (List.mem_append_right _ hs)
  have hsegments : segments (['/'].intercalate names) = names :=
    segments_intercalate (fun s hs => (hnames s hs).2) hne
  have hcomponents := filterMap_ofSegment_names fun s hs => (hnames s hs).1
  have hclimbs : climbs q.length names = false :=
    climbs_eq_false fun hmem => (hnames _ hmem).1.ne_parent rfl
  have hjoin := @ha.join _ _ _ _ _ h (['/'].intercalate names) (q ++ names)
    (FileTree.intercalate_names hne hnames).2
  rw [hsegments, hcomponents] at hjoin
  exact hjoin hreached.follow hclimbs

theorem isDirectory_iff (h : r.Holds u) (ha : r.Below q cs a) :
    r.tree.isDirectory a = true ↔ u.at? q = some .directory := by
  rw [FileTree.isDirectory_iff, ← h.there]
  constructor
  · rintro ⟨p, hp, hdir⟩
    rwa [Except.ok.inj (ha.located.symm.trans hp)]
  · exact fun hdir => ⟨_, ha.located, hdir⟩

theorem mem_namesBelow_iff (h : r.Holds u) (ha : r.Below q cs a) {names : Place}
    {item : Item} :
    (names, item) ∈ Glob.namesBelow r.tree a ↔ names ≠ [] ∧
      (q ++ names, item) ∈ u.entries := by
  rw [FileTree.mem_namesBelow_iff, ← h.mem_descendants_iff]
  constructor
  · rintro ⟨p, hp, hmem⟩
    rwa [Except.ok.inj (ha.located.symm.trans hp)]
  · exact fun hmem => ⟨_, ha.located, hmem⟩

end Below

/-! ### Patterns below two roots -/

/-- The root is not written with a `.` in front. Patterns lead on below it as segments do. -/
def Begins (r : Root) : Prop := .current ∉ Path.components r.path

namespace Below

variable {cs : List Component} {a : Text}

theorem childPath_eq_join (h : r.Holds u) (ha : r.Below q cs a) (hfront : r.Begins)
    (s : Text) : Glob.childPath a s = Path.join a s := by
  refine Glob.childPath_eq_join (fun hhead => hfront ?_) s
  have hne := components_ne_nil (FileTree.locate_eq_ok_iff.1 h.located).1
  rw [ha.components, List.head?_append_of_ne_nil _ hne] at hhead
  exact List.mem_of_head? hhead

theorem child (h : r.Holds u) (ha : r.Below q cs a) (hfront : r.Begins) {s : Text} {q' : Place}
    (hs : '/' ∉ s) (hstep : u.Steps q s q') (hback : s = ['.', '.'] → q ≠ []) :
    r.Below q' (cs ++ [s].filterMap ofSegment) (Glob.childPath a s) := by
  rw [ha.childPath_eq_join h hfront]
  exact ha.step h hs hstep hback

theorem descendant (h : r.Holds u) (hu : u.IsSound) (ha : r.Below q cs a) (hfront : r.Begins)
    {names : Place} {item : Item} (hmem : (names, item) ∈ Glob.namesBelow r.tree a) :
    r.Below (q ++ names) (cs ++ names.map .name)
      (Glob.childPath a (['/'].intercalate names)) := by
  obtain ⟨hne, hitem⟩ := (ha.mem_namesBelow_iff h).1 hmem
  rw [ha.childPath_eq_join h hfront]
  exact ha.descend h hu hne hitem

theorem length_lt_of_mem_namesBelow (h : r.Holds u) (ha : r.Below q cs a) {names : Place}
    {item : Item} (hmem : (names, item) ∈ Glob.namesBelow r.tree a) :
    q.length < (q ++ names).length := by
  rw [List.length_append]
  exact Nat.lt_add_of_pos_right
    (List.length_pos_of_ne_nil ((ha.mem_namesBelow_iff h).1 hmem).1)

theorem exists_steps_of_leadsOn (h : r.Holds u) (ha : r.Below q cs a) (hfront : r.Begins)
    {s : Text} (hs : '/' ∉ s) (hback : s = ['.', '.'] → q ≠ [])
    (hon : Glob.LeadsOn r.tree a s) : ∃ q', u.Steps q s q' := by
  rcases hon with ⟨hdots, hdir⟩ | ⟨-, hexists⟩
  · rw [ha.isDirectory_iff h] at hdir
    rcases hdots with rfl | rfl
    · exact ⟨q, .idle hdir (Or.inr rfl)⟩
    · exact ⟨q.dropLast, .back hdir rfl⟩
  · obtain ⟨p, hp, -⟩ := FileTree.existsAt_iff.1 hexists
    rw [ha.childPath_eq_join h hfront,
      FileTree.locate_join ha.located (isAbsolute_of_not_mem hs), segments_of_not_mem hs] at hp
    obtain ⟨p, hp, -⟩ := FileTree.follow_cons_eq_ok_iff.1 hp
    obtain ⟨q', -, hq'⟩ := h.steps_cases hp hback
    exact ⟨q', hq'⟩

end Below

/-- Paths below two roots that go on in the same way, to the same place. -/
def Twins (r r' : Root) (a a' : Text) : Prop := ∃ q cs, r.Below q cs a ∧ r'.Below q cs a'

theorem Twins.isDirectory_iff {r r' : Root} (hr : r.Holds u) (hr' : r'.Holds u) {a a' : Text}
    (h : Twins r r' a a') : r.tree.isDirectory a = true ↔ r'.tree.isDirectory a' = true := by
  obtain ⟨q, cs, ha, ha'⟩ := h
  rw [ha.isDirectory_iff hr, ha'.isDirectory_iff hr']

theorem Twins.mem_namesBelow_iff {r r' : Root} (hr : r.Holds u) (hr' : r'.Holds u)
    {a a' : Text} (h : Twins r r' a a') {names : Place} {item : Item} :
    (names, item) ∈ Glob.namesBelow r.tree a ↔
      (names, item) ∈ Glob.namesBelow r'.tree a' := by
  obtain ⟨q, cs, ha, ha'⟩ := h
  rw [ha.mem_namesBelow_iff hr, ha'.mem_namesBelow_iff hr']

/-- Components lead from twins to twins. `climbs` keeps the way below the roots. -/
theorem expands_twin {r r' : Root} (hr : r.Holds u) (hr' : r'.Holds u) (hu : u.IsSound)
    (hfront : r.Begins) (hfront' : r'.Begins) {directoryOnly : Bool} {ps : List Glob.Pattern}
    {cs : List Component} {a a' z : Text} (ha : r.Below q cs a) (ha' : r'.Below q cs a')
    (hps : ∀ p ∈ ps, Glob.Pattern.parse p.source = .ok p ∧ '/' ∉ p.source)
    (hclimbs : Glob.climbs q.length ps = false)
    (hz : Glob.Expands r.tree directoryOnly ps a z) :
    ∃ z', Twins r r' z z' ∧ Glob.Expands r'.tree directoryOnly ps a' z' := by
  induction hz generalizing q cs a' with
  | done hdir =>
    have htwins : Twins r r' _ a' := ⟨q, cs, ha, ha'⟩
    exact ⟨a', htwins, .done fun h => (htwins.isDirectory_iff hr hr').1 (hdir h)⟩
  | @literal p ps a z hp hon hz ih =>
    obtain ⟨⟨hparse, hslash⟩, hps⟩ := List.forall_mem_cons.1 hps
    have hback (hparent : p.source = ['.', '.']) : q ≠ [] :=
      List.ne_nil_of_length_pos
        (Nat.pos_of_ne_zero (Glob.climbs_back hparse hclimbs hparent).1)
    obtain ⟨q', hq'⟩ := ha.exists_steps_of_leadsOn hr hfront hslash hback hon
    obtain ⟨z', hz', hexpands⟩ := ih (ha.child hr hfront hslash hq' hback)
      (ha'.child hr' hfront' hslash hq' hback) hps (Glob.climbs_of_steps hparse hclimbs hq')
    refine ⟨z', hz', .literal hp ?_ hexpands⟩
    have hjoin := ha'.childPath_eq_join hr' hfront' p.source
    exact Glob.leadsOn_of_steps ha'.located hslash hjoin (hr'.steps hq' hback)
  | @directories p ps a names hp hdir hdirs hdrop hmem =>
    have htwins : Twins r r' a a' := ⟨q, cs, ha, ha'⟩
    have hdir' := (htwins.isDirectory_iff hr hr').1 hdir
    have hmem' := (htwins.mem_namesBelow_iff hr hr').1 hmem
    have hbelow := ha.descendant hr hu hfront hmem
    exact ⟨_, ⟨_, _, hbelow, ha'.descendant hr' hu hfront' hmem'⟩,
      .directories hp hdir' hdirs hdrop hmem'⟩
  | @deep p p' ps ps' a z names item hp hdir hdirs hdrop hmem hmatch hz ih =>
    have htwins : Twins r r' a a' := ⟨q, cs, ha, ha'⟩
    have hdir' := (htwins.isDirectory_iff hr hr').1 hdir
    have hmem' := (htwins.mem_namesBelow_iff hr hr').1 hmem
    -- Behind `**` the depth has grown by at least one name, as it has for the components.
    have hclimbs' : Glob.climbs (q ++ names).length ps' = false :=
      Glob.climbs_mono (Glob.climbs_deep hdirs hdrop hclimbs)
        (ha.length_lt_of_mem_namesBelow hr hmem)
    have hps' := Glob.forall_of_dropWhile_eq hdrop (List.forall_mem_cons.1 hps).2
    obtain ⟨z', hz', hexpands⟩ := ih (ha.descendant hr hu hfront hmem)
      (ha'.descendant hr' hu hfront' hmem') hps' hclimbs'
    exact ⟨z', hz', .deep hp hdir' hdirs hdrop hmem' hmatch hexpands⟩
  | @name p ps a z n item hp hdir hdirs hmem hmatch hz ih =>
    have htwins : Twins r r' a a' := ⟨q, cs, ha, ha'⟩
    have hdir' := (htwins.isDirectory_iff hr hr').1 hdir
    have hmem' := (htwins.mem_namesBelow_iff hr hr').1 hmem
    have hclimbs' : Glob.climbs (q ++ [n]).length ps = false := by
      rw [List.length_append]
      exact Glob.climbs_tail hclimbs
    have hbelow := ha.descendant hr hu hfront hmem
    have hbelow' := ha'.descendant hr' hu hfront' hmem'
    rw [List.intercalate_singleton] at hbelow hbelow'
    obtain ⟨z', hz', hexpands⟩ := ih hbelow hbelow' (List.forall_mem_cons.1 hps).2 hclimbs'
    exact ⟨z', hz', .name hp hdir' hdirs hmem' hmatch hexpands⟩
  | @dots p ps a z n hp hdir hdirs hpoint hdots hmatch hz ih =>
    obtain ⟨⟨hparse, -⟩, hps⟩ := List.forall_mem_cons.1 hps
    have hat := (ha.isDirectory_iff hr).1 hdir
    have hslash : '/' ∉ n := by
      rcases hdots with rfl | rfl <;> decide
    obtain ⟨q', hq', hback, hclimbs'⟩ :=
      Glob.exists_steps_of_dots hparse hp hdirs hpoint hdots hmatch hat hclimbs
    obtain ⟨z', hz', hexpands⟩ := ih (ha.step hr hslash hq' hback)
      (ha'.step hr' hslash hq' hback) hps hclimbs'
    exact ⟨z', hz', .dots hp ((ha'.isDirectory_iff hr').2 hat) hdirs hpoint hdots hmatch
      hexpands⟩

/-! ### Includes -/

/-- Does an entry of a configuration stay inside of the root? -/
def staysInside (e : Text) : Bool :=
  !isAbsolute e &&
    if hasWildcard e then
      match Glob.readComponents e with
      | .error _ => true
      | .ok ps => !Glob.climbs 0 ps
    else !climbs 0 (segments e)

/-- Is the root written in such a way that patterns can be read below it? -/
structure IsPlain (r : Root) : Prop where
  text : Glob.IsPlain r.path
  front : .current ∉ Path.components r.path

/-- The base of the patterns below a plain root. -/
theorem exists_patternBase (h : r.Holds u) (hplain : r.IsPlain) :
    ∃ base, r.Below [] [] base ∧ ∀ e a, hasWildcard e = true → isAbsolute e = false →
      (a ∈ (Scan.includePaths r.tree r.path e).1 ↔
        (∃ ps, Glob.readComponents e = .ok ps ∧
          Glob.Expands r.tree (e.getLast? == some '/') ps base a) ∧
            r.tree.isDirectory a = true) := by
  obtain ⟨base, hbase, hcomponents, hiff⟩ :=
    Glob.exists_base h.located hplain.text hplain.front
  refine ⟨base, ⟨?_, ?_, fun _ => rfl⟩, fun e a he habs => ?_⟩
  · rw [List.append_nil, hbase]
  · rw [List.append_nil, hcomponents]
  · have hne : e ≠ [] := by
      rintro rfl
      cases he
    rw [Scan.mem_includePaths_of_wildcard he, hiff e a hne habs]

section Scans

variable {r' : Root}

/-- The paths that an include stands for below one root have twins below the other. -/
theorem includePaths_twin (hr : r.Holds u) (hr' : r'.Holds u) (hu : u.IsSound) {e a : Text}
    (he : staysInside e = true) (hplain : hasWildcard e = true → r.IsPlain ∧ r'.IsPlain)
    (ha : a ∈ (Scan.includePaths r.tree r.path e).1) :
    ∃ a', Twins r r' a a' ∧ a' ∈ (Scan.includePaths r'.tree r'.path e).1 := by
  obtain ⟨habs, hinside⟩ := Bool.and_eq_true_iff.1 he
  rw [Bool.not_eq_true'] at habs
  cases hwild : hasWildcard e with
  | true =>
    -- A pattern leads from each root to what its components lead to from there.
    obtain ⟨base, hbase, hiff⟩ := exists_patternBase hr (hplain hwild).1
    obtain ⟨base', hbase', hiff'⟩ := exists_patternBase hr' (hplain hwild).2
    obtain ⟨⟨ps, hread, hexpands⟩, hdir⟩ := (hiff e a hwild habs).1 ha
    have hclimbs : Glob.climbs 0 ps = false := by simpa [hwild, hread] using hinside
    obtain ⟨a', htwins, hexpands'⟩ := expands_twin hr hr' hu (hplain hwild).1.front
      (hplain hwild).2.front hbase hbase'
      (fun p hp => Glob.parse_of_mem_readComponents hread hp) hclimbs hexpands
    have hdir' := (htwins.isDirectory_iff hr hr').1 hdir
    exact ⟨a', htwins, (hiff' e a' hwild habs).2 ⟨⟨ps, hread, hexpands'⟩, hdir'⟩⟩
  | false =>
    obtain ⟨rfl, hexists⟩ := (Scan.mem_includePaths_of_path hwild).1 ha
    -- A path that stays inside leads to the same place below both roots.
    have hclimbs : climbs 0 (segments e) = false := by simpa [hwild] using hinside
    obtain ⟨p, hp, hthere⟩ := FileTree.existsAt_iff.1 hexists
    rw [FileTree.locate_join hr.located habs, ← List.append_nil r.place] at hp
    obtain ⟨q, rfl, hq⟩ := hr.follow_cases hp hclimbs
    have hbelow := hr.below.join hr habs hq hclimbs
    have hbelow' := hr'.below.join hr' habs hq hclimbs
    refine ⟨_, ⟨q, _, hbelow, hbelow'⟩, (Scan.mem_includePaths_of_path hwild).2 ⟨rfl, ?_⟩⟩
    refine FileTree.existsAt_iff.2 ⟨_, hbelow'.located, ?_⟩
    rwa [hr'.there, ← hr.there]

/-- The entries of a configuration that can be told apart from where the root lies: they do not
lead out of it, and a root below which patterns are read is written plainly. -/
structure Admits (r : Root) (config : Config) : Prop where
  inside : ∀ e ∈ config.includes, staysInside e = true
  plain : ∀ e ∈ config.includes, hasWildcard e = true → r.IsPlain
  relative : ∀ e ∈ config.ignores, hasWildcard e = false → isAbsolute e = false

variable {config : Config}

theorem startPaths_twin (hr : r.Holds u) (hr' : r'.Holds u) (hu : u.IsSound)
    (hconfig : r.Admits config) (hconfig' : r'.Admits config) {a : Text}
    (ha : a ∈ (Scan.startPaths r.tree r.path config.includes).1) :
    ∃ a', Twins r r' a a' ∧ a' ∈ (Scan.startPaths r'.tree r'.path config.includes).1 := by
  rcases Scan.mem_startPaths_iff.1 ha with ⟨hempty, rfl⟩ | ⟨e, he, ha⟩
  · exact ⟨r'.path, ⟨[], [], hr.below, hr'.below⟩,
      Scan.mem_startPaths_iff.2 (Or.inl ⟨hempty, rfl⟩)⟩
  · obtain ⟨a', htwins, ha'⟩ := includePaths_twin hr hr' hu (hconfig.inside e he)
      (fun hwild => ⟨hconfig.plain e he hwild, hconfig'.plain e he hwild⟩) ha
    exact ⟨a', htwins, Scan.mem_startPaths_iff.2 (Or.inr ⟨e, he, ha'⟩)⟩

/-- A file that a walk finds has a twin that the walk from a twin finds. It does not lie at the
root itself. -/
theorem walked_twin (hr : r.Holds u) (hr' : r'.Holds u) (hu : u.IsSound) {a a' f : Text}
    (htwins : Twins r r' a a') (hf : f ∈ Scan.walked r.tree a) :
    ∃ q cs f', cs ≠ [] ∧ r.Below q cs f ∧ r'.Below q cs f' ∧ f' ∈ Scan.walked r'.tree a' := by
  obtain ⟨q, cs, ha, ha'⟩ := htwins
  obtain ⟨p, hp, hfile⟩ := FileTree.mem_walked_iff.1 hf
  obtain rfl := Except.ok.inj (ha.located.symm.trans hp)
  rcases hfile with ⟨bytes, hat, rfl⟩ | ⟨hat, names, bytes, hmem, rfl⟩
  · -- The walk starts at a file, which is not the root itself, since that is a directory.
    rw [hr.there] at hat
    refine ⟨q, cs, a', fun hcs => ?_, ha, ha',
      FileTree.mem_walked_iff.2 ⟨_, ha'.located, Or.inl ⟨bytes, ?_, rfl⟩⟩⟩
    · rw [ha.moved hcs, u.at?_nil] at hat
      cases hat
    · rwa [hr'.there]
  · -- It goes down from a directory by the same names in both trees.
    obtain ⟨hne, hitem⟩ := hr.mem_descendants_iff.1 hmem
    refine ⟨_, _, _, ?_, ha.descend hr hu hne hitem, ha'.descend hr' hu hne hitem, ?_⟩
    · simp [hne]
    · rw [hr.there, ← hr'.there] at hat
      exact FileTree.mem_walked_iff.2 ⟨_, ha'.located,
        Or.inr ⟨hat, names, bytes, hr'.mem_descendants_iff.2 ⟨hne, hitem⟩, rfl⟩⟩

/-! ### Selection -/

namespace Below

variable {cs : List Component} {f f' : Text}

theorem startsWith_join (hr : r.Holds u) (hf : r.Below q cs f) {e : Text}
    (he : isAbsolute e = false) :
    Path.startsWith f (Path.join r.path e) = ((segments e).filterMap ofSegment).isPrefixOf
    cs := by
  have hne := (FileTree.locate_eq_ok_iff.1 hr.located).1
  rw [Bool.eq_iff_iff, startsWith_iff, List.isPrefixOf_iff_prefix, components_join hne he,
    hf.components, List.prefix_append_right_inj]

/-- The components of a path behind those of the root are its origin. -/
theorem origin_eq (hf : r.Below q cs f) :
    Path.origin r.path f = ['/'].intercalate (cs.filterMap labelPiece) := by
  have hstarts : Path.startsWith f r.path = true :=
    startsWith_iff.2 (hf.components ▸ List.prefix_append _ _)
  rw [Path.origin, Path.below, if_pos hstarts, hf.components, List.drop_left]

theorem isTemplateFile_eq (hf : r.Below q cs f) (hf' : r'.Below q cs f') (hcs : cs ≠ [])
    (config : Config) : config.isTemplateFile f = config.isTemplateFile f' := by
  rw [Config.isTemplateFile, Config.isTemplateFile, extension?, extension?, fileName?,
    fileName?, hf.components, hf'.components, List.getLast?_append_of_ne_nil _ hcs,
    List.getLast?_append_of_ne_nil _ hcs]

end Below

/-- Does an ignore with wildcards leave the file out? -/
def matchesIgnore (config : Config) (f : Text) : Bool :=
  ((config.ignores.filter hasWildcard).filterMap fun p => (Glob.Pattern.parse p).toOption).any
  (·.matches? f)

theorem selects_twin (hr : r.Holds u) (hr' : r'.Holds u) (hconfig : r.Admits config)
    {cs : List Component} {f f' : Text} (hf : r.Below q cs f) (hf' : r'.Below q cs f')
    (hcs : cs ≠ []) (hignore : matchesIgnore config f = matchesIgnore config f') :
    Scan.selects config (Scan.Ignores.ofEntries r.path config.ignores) f =
      Scan.selects config (Scan.Ignores.ofEntries r'.path config.ignores) f' := by
  have hpaths : (Scan.Ignores.ofEntries r.path config.ignores).paths.any (Path.startsWith f) =
      (Scan.Ignores.ofEntries r'.path config.ignores).paths.any (Path.startsWith f') := by
    rw [Bool.eq_iff_iff]
    simp only [Scan.Ignores.ofEntries, List.any_map, List.any_eq_true, List.mem_filter,
      Function.comp_apply]
    -- The root stands in front of file and ignore alike, so it drops out of the comparison.
    refine exists_congr fun e => and_congr_right fun he => ?_
    have habs := hconfig.relative e he.1 (by simpa using he.2)
    rw [hf.startsWith_join hr habs, hf'.startsWith_join hr' habs]
  rw [Scan.selects, Scan.selects, Scan.Ignores.covers, Scan.Ignores.covers, hpaths,
    hf.isTemplateFile_eq hf' hcs]
  exact congrArg (fun b => !(_ || b) && _) hignore

/-- The origins of the templates that a scan finds below the root. -/
def origins (r : Root) (config : Config) : List Text :=
  (Scan.run r.tree r.path config).files.map (Path.origin r.path)

/-- The files that a scan comes across. -/
def candidates (r : Root) (config : Config) : List Text :=
  (Scan.startPaths r.tree r.path config.includes).1.flatMap (Scan.walked r.tree)

/-- The ignores with wildcards leave out the same below both roots. -/
def IgnoreAlike (r r' : Root) (config : Config) : Prop :=
  ∀ f ∈ r.candidates config, ∀ f' ∈ r'.candidates config,
    Path.origin r.path f = Path.origin r'.path f' →
      matchesIgnore config f = matchesIgnore config f'

/-- The origins, from the files that a scan selects below the root, in order. -/
theorem origins_eq_map (files : List Text) (ascending : files.Pairwise (· < ·))
    (found : files ⊆ (r.candidates config).filter
      (Scan.selects config (Scan.Ignores.ofEntries r.path config.ignores)))
    (all : (r.candidates config).filter
      (Scan.selects config (Scan.Ignores.ofEntries r.path config.ignores)) ⊆ files) :
    r.origins config = files.map (Path.origin r.path) :=
  congrArg _ (FileTree.files_eq_of_pairwise ascending found all)

theorem mem_origins_iff {o : Text} :
    o ∈ r.origins config ↔ ∃ f ∈ r.candidates config,
      Scan.selects config (Scan.Ignores.ofEntries r.path config.ignores) f = true ∧
        Path.origin r.path f = o := by
  simp only [origins, candidates, List.mem_map, FileTree.mem_files_iff, List.mem_flatMap,
    and_assoc]

theorem IgnoreAlike.symm (h : IgnoreAlike r r' config) : IgnoreAlike r' r config :=
  fun f hf f' hf' horigin => (h f' hf' f hf horigin.symm).symm

/-- What is found below one root is found below the other. -/
theorem mem_origins_twin (hr : r.Holds u) (hr' : r'.Holds u) (hu : u.IsSound)
    (hconfig : r.Admits config) (hconfig' : r'.Admits config)
    (hignore : IgnoreAlike r r' config) {o : Text} (ho : o ∈ r.origins config) :
    o ∈ r'.origins config := by
  obtain ⟨f, hf, hselects, rfl⟩ := mem_origins_iff.1 ho
  obtain ⟨a, ha, hwalked⟩ := List.mem_flatMap.1 hf
  obtain ⟨a', htwins, ha'⟩ := startPaths_twin hr hr' hu hconfig hconfig' ha
  obtain ⟨q, cs, f', hcs, hbelow, hbelow', hwalked'⟩ := walked_twin hr hr' hu htwins hwalked
  have hf' : f' ∈ r'.candidates config := List.mem_flatMap.2 ⟨a', ha', hwalked'⟩
  have horigin : Path.origin r.path f = Path.origin r'.path f' := by
    rw [hbelow.origin_eq, hbelow'.origin_eq]
  refine mem_origins_iff.2 ⟨f', hf', ?_, horigin.symm⟩
  rw [← selects_twin hr hr' hconfig hbelow hbelow' hcs (hignore f hf f' hf' horigin), hselects]

end Scans

end Root

/-- **Scanning is relative to the root.** The origins of the templates that are found are the
same below two roots that hold the same tree, for every configuration whose includes stay
inside of the root and whose ignores are relative: if no ignore with wildcards, compared with
the whole path of a file, tells the roots apart, and if the roots are plain where an include
with wildcards is read below them. -/
theorem origins_eq_of_relocation {r r' : Root} {u : FileTree} {config : Config}
    (hr : r.Holds u) (hr' : r'.Holds u) (hu : u.IsSound) (hconfig : r.Admits config)
    (hconfig' : r'.Admits config) (hignore : Root.IgnoreAlike r r' config) (o : Text) :
    o ∈ r.origins config ↔ o ∈ r'.origins config :=
  ⟨Root.mem_origins_twin hr hr' hu hconfig hconfig' hignore,
    Root.mem_origins_twin hr' hr hu hconfig' hconfig hignore.symm⟩

/-! ### A tree below a name -/

/-- The tree in a directory with the name `d`. -/
def FileTree.inside (u : FileTree) (d : Text) : FileTree where
  items := u.entries.map fun (q, item) => (d :: q, item)

/-- The directory that holds the tree, from the directory around it. -/
def Root.named (u : FileTree) (d : Text) : Root := ⟨u.inside d, d, [d]⟩

theorem FileTree.lookup_inside (items : List (Place × Item)) (d : Text) (q : Place) :
    (items.map fun (q, item) => (d :: q, item)).lookup (d :: q) = items.lookup q := by
  induction items with
  | nil => rfl
  | cons x items ih =>
    obtain ⟨p, item⟩ := x
    rw [List.map_cons, List.lookup_cons, List.lookup_cons, ih]
    by_cases hq : q = p <;> simp [hq]

/-- Nothing in the directory is on the way to the working directory around it. -/
theorem FileTree.not_prefix_inside (u : FileTree) (d : Text) (q : Place) :
    ¬d :: q <+: (u.inside d).here := fun h => by cases List.prefix_nil.1 h

theorem FileTree.at?_inside (u : FileTree) (d : Text) (q : Place) :
    (u.inside d).at? (d :: q) = u.at? q := by
  rw [at?_eq_of_apart (u.not_prefix_inside d q), at?_eq_lookup u]
  exact lookup_inside u.entries d q

theorem FileTree.mem_entries_inside_iff {u : FileTree} {d : Text} {q : Place} {item : Item} :
    (d :: q, item) ∈ (u.inside d).entries ↔ (q, item) ∈ u.entries := by
  have hnot := u.not_prefix_inside d q
  rw [mem_entries_iff, or_iff_right fun h => hnot h.1, and_iff_right hnot]
  simp [inside]

/-- Every tree can be put below every name. -/
theorem Root.holds_named (u : FileTree) {d : Text} (hd : IsChildName d) (hslash : '/' ∉ d) :
    (named u d).Holds u where
  located := by
    refine (FileTree.locate_name_eq_ok_iff hd hslash).2 ⟨rfl, ?_⟩
    exact Option.isSome_of_eq_some ((u.at?_inside d []).trans u.at?_nil)
  there q := u.at?_inside d q
  listed _ _ _ := FileTree.mem_entries_inside_iff

/-- Two directories with a template each. -/
def twoDirectories : FileTree where
  items :=
    [(["s".toList], .directory), (["s".toList, "t.html".toList], .file .empty),
      (["x".toList], .directory), (["x".toList, "t.html".toList], .file .empty)]

theorem isSound_twoDirectories : twoDirectories.IsSound := by
  have hlocate : ∀ x ∈ twoDirectories.items,
      twoDirectories.locate (['/'].intercalate x.1) = .ok x.1 := by decide
  exact fun p item hmem => FileTree.locate_reached (hlocate (p, item) hmem)

instance (r r' : Root) (config : Config) : Decidable (Root.IgnoreAlike r r' config) :=
  inferInstanceAs (Decidable (∀ f ∈ r.candidates config, ∀ f' ∈ r'.candidates config,
    Path.origin r.path f = Path.origin r'.path f' →
      Root.matchesIgnore config f = Root.matchesIgnore config f'))

instance (s : Text) : Decidable (IsChildName s) :=
  decidable_of_iff (¬(s = [] ∨ s = ['.']) ∧ s ≠ ['.', '.'])
    ⟨fun h => ⟨h.1, h.2⟩, fun h => ⟨h.not_idle, h.ne_parent⟩⟩

/-- With an include and an ignore that are patterns, and one directory left out, below two
names. -/
theorem origins_eq_of_relocation_names :
    let config : Config :=
      { includes := ["?".toList], ignores := ["*.txt".toList, "x".toList] }
    (Root.named twoDirectories "a".toList).origins config = ["s/t.html".toList] ∧
      "s/t.html".toList ∈ (Root.named twoDirectories "b".toList).origins config ∧
      "x/t.html".toList ∉ (Root.named twoDirectories "b".toList).origins config := by
  intro config
  have ha := Root.holds_named twoDirectories (d := "a".toList) (by decide) (by decide)
  have hb := Root.holds_named twoDirectories (d := "b".toList) (by decide) (by decide)
  have hadmits {d : Text} (hd : Glob.IsPlain d ∧ .current ∉ components d) :
      (Root.named twoDirectories d).Admits config :=
    ⟨by decide +kernel, fun _ _ _ => ⟨hd.1, hd.2⟩, by decide⟩
  have hiff := origins_eq_of_relocation ha hb isSound_twoDirectories (hadmits (by decide))
    (hadmits (by decide)) (by decide +kernel)
  have horigins :
      (Root.named twoDirectories "a".toList).origins config = ["s/t.html".toList] :=
    (Root.origins_eq_map ["a/s/t.html".toList] (by decide) (by decide +kernel)
      (by decide +kernel)).trans (by decide +kernel)
  refine ⟨horigins, (hiff _).1 ?_, fun h => ?_⟩
  · rw [horigins]
    exact List.mem_singleton_self _
  · have hleft := (hiff _).2 h
    rw [horigins] at hleft
    revert hleft
    decide

/-- An ignore with wildcards tells the names of two roots apart; an include with wildcards
reads the name of the root as a pattern; and in the working directory, named `.`, an ignore
that is a path leaves nothing out of what an include with wildcards finds. -/
theorem origins_eq_of_relocation_rootText :
    let names : Config := { ignores := ["a/*".toList] }
    let patterns : Config := { includes := ["*".toList], ignores := ["x".toList] }
    names.fault? = none ∧ patterns.fault? = none ∧ twoDirectories.IsSound ∧
      (∀ d ∈ ["a".toList, "b".toList, "[x]".toList],
        (Root.named twoDirectories d).Holds twoDirectories) ∧
      (Root.mk twoDirectories ".".toList []).Holds twoDirectories ∧
      (Root.named twoDirectories "a".toList).origins names = [] ∧
      (Root.named twoDirectories "b".toList).origins names =
        ["s/t.html".toList, "x/t.html".toList] ∧
      (Root.named twoDirectories "b".toList).origins patterns = ["s/t.html".toList] ∧
      (Root.named twoDirectories "[x]".toList).origins patterns = [] ∧
      (Root.mk twoDirectories ".".toList []).origins patterns =
        ["s/t.html".toList, "x/t.html".toList] := by
  intro names patterns
  have hholds : ∀ d ∈ ["a".toList, "b".toList, "[x]".toList],
      (Root.named twoDirectories d).Holds twoDirectories := by
    intro d hd
    have hname : IsChildName d ∧ '/' ∉ d := by
      revert d
      decide
    exact Root.holds_named twoDirectories hname.1 hname.2
  refine ⟨by decide +kernel, by decide +kernel, isSound_twoDirectories, hholds,
    ⟨by decide, fun q => rfl, fun q item _ => Iff.rfl⟩, ?_, ?_, ?_, ?_, ?_⟩
  · exact Root.origins_eq_map [] (by decide) (by decide +kernel) (by decide +kernel)
  · exact (Root.origins_eq_map ["b/s/t.html".toList, "b/x/t.html".toList] (by decide)
      (by decide +kernel) (by decide +kernel)).trans (by decide +kernel)
  · exact (Root.origins_eq_map ["b/s/t.html".toList] (by decide) (by decide +kernel)
      (by decide +kernel)).trans (by decide +kernel)
  · exact Root.origins_eq_map [] (by decide) (by decide +kernel) (by decide +kernel)
  -- What a pattern finds in the working directory is not written with the root in front.
  · exact (Root.origins_eq_map ["s/t.html".toList, "x/t.html".toList] (by decide)
      (by decide +kernel) (by decide +kernel)).trans (by decide +kernel)

end TemplateCatalog
