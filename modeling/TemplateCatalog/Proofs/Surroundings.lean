/-
Where the configuration of a directory comes from.

The search goes outwards by the text of a path: each directory that it asks is named by the
start path less its end (`parent?_continues`), so what is left of the start path leads from the
directory of the file that is found back to where the search started. The main result,
`config_lies_around`, says so, and that the file lies in the start directory or in one around
it, unless what was left off climbs out with `..` (`Path.climbs`).

A start path such as `a/..` does climb out: without its end it names a directory inside of the
one it leads to, and a configuration there is taken for one of the start directory.
-/
import TemplateCatalog.Proofs.Effects

namespace TemplateCatalog

/-! ### Paths less their end -/

namespace Path

/-- The path `p` is the path `q` with `rest` behind it, the two joined at a separator. A path
from the root goes on from `/`, any other from the empty path. -/
structure Continues (q rest p : Text) : Prop where
  text : p = q ++ rest
  seam : rest = [] ∨ (q = [] ∧ isAbsolute rest = false) ∨ q = ['/'] ∨
    (q ≠ [] ∧ ∃ r, rest = '/' :: r)

theorem Continues.refl (p : Text) : Continues p [] p := ⟨(List.append_nil p).symm, Or.inl rfl⟩

theorem Continues.trans {o q p rest more : Text} (h : Continues o more q)
    (h' : Continues q rest p) : Continues o (more ++ rest) p := by
  refine ⟨by rw [h'.text, h.text, List.append_assoc], ?_⟩
  rcases h.seam with rfl | ⟨rfl, habs⟩ | rfl | ⟨hne, r, rfl⟩
  · rw [List.nil_append, ← List.append_nil o, ← h.text]
    exact h'.seam
  · -- In front of `rest` stands `q`, or nothing.
    obtain rfl : q = more := h.text
    rcases h'.seam with rfl | ⟨rfl, hrest⟩ | rfl | ⟨hq, -⟩
    · exact Or.inr (Or.inl ⟨rfl, by rwa [List.append_nil]⟩)
    · exact Or.inr (Or.inl ⟨rfl, hrest⟩)
    · cases habs
    · exact Or.inr (Or.inl ⟨rfl, by rwa [isAbsolute_append hq]⟩)
  · exact Or.inr (Or.inr (Or.inl rfl))
  · exact Or.inr (Or.inr (Or.inr ⟨hne, r ++ rest, rfl⟩))

/-- What is dropped ends in a separator. -/
theorem dropEnd_eq_append (r : Text) :
    ∃ front, r = front ++ dropEnd r ∧ (front = [] ∨ ∃ f, front = f ++ ['/']) := by
  fun_induction dropEnd r with
  | case1 r ih =>
    obtain ⟨front, hr, hfront⟩ := ih
    refine ⟨'/' :: front, congrArg _ hr, Or.inr ?_⟩
    rcases hfront with rfl | ⟨f, rfl⟩
    · exact ⟨[], rfl⟩
    · exact ⟨'/' :: f, rfl⟩
  | case2 r ih =>
    obtain ⟨front, hr, hfront⟩ := ih
    refine ⟨'.' :: '/' :: front, congrArg _ (congrArg _ hr), Or.inr ?_⟩
    rcases hfront with rfl | ⟨f, rfl⟩
    · exact ⟨['.'], rfl⟩
    · exact ⟨'.' :: '/' :: f, rfl⟩
  | case3 => exact ⟨[], rfl, Or.inl rfl⟩

/-- The parent of a path is that path less its end. -/
theorem parent?_continues {p q : Text} (h : parent? p = some q) :
    ∃ rest, Continues q rest p := by
  rw [parent?] at h
  split at h
  · cases h
  · rename_i c r hr
    obtain ⟨front, hfront, -⟩ := dropEnd_eq_append p.reverse
    have hparts : (c :: r).takeWhile (· != '/') ++ (c :: r).dropWhile (· != '/') = c :: r :=
      List.takeWhile_append_dropWhile
    obtain ⟨between, hbetween, hslash⟩ := dropEnd_eq_append ((c :: r).dropWhile (· != '/'))
    split at h
    · obtain rfl := Option.some.inj h
      cases habs : isAbsolute p with
      | true =>
        obtain ⟨rest, rfl⟩ := exists_eq_cons_of_isAbsolute habs
        exact ⟨rest, rfl, Or.inr (Or.inr (Or.inl rfl))⟩
      | false => exact ⟨p, rfl, Or.inr (Or.inl ⟨rfl, habs⟩)⟩
    · rename_i hne
      obtain rfl := Option.some.inj h
      -- In the text in reverse the parent stands behind a separator.
      have hslash : ∃ f, between = f ++ ['/'] := by
        refine hslash.resolve_left ?_
        rintro rfl
        rw [List.nil_append] at hbetween
        have hhead := List.head?_dropWhile_not (· != '/') (c :: r)
        cases hd : (c :: r).dropWhile (· != '/') with
        | nil =>
          rw [hd] at hne
          exact hne rfl
        | cons d w =>
          rw [hd] at hhead hbetween
          obtain rfl : d = '/' := by simpa using hhead
          exact dropEnd_ne_slash _ _ hbetween.symm
      obtain ⟨f, rfl⟩ := hslash
      refine ⟨((front ++ (c :: r).takeWhile (· != '/')) ++ (f ++ ['/'])).reverse, ?_, ?_⟩
      · rw [← List.reverse_append, List.append_assoc, List.append_assoc, ← hbetween, hparts,
          ← hr, ← hfront, List.reverse_reverse]
      · refine Or.inr (Or.inr (Or.inr ⟨by simpa using hne, ?_⟩))
        exact ⟨f.reverse ++ (front ++ (c :: r).takeWhile (· != '/')).reverse, by simp⟩

/-! ### Climbing out -/

/-- Do the segments lead out of the directory `depth` levels above the one they start from? -/
def climbs (depth : Nat) : List Text → Bool
  | [] => false
  | s :: ss =>
    if s = [] ∨ s = ['.'] then climbs depth ss
    else if s = ['.', '.'] then depth == 0 || climbs (depth - 1) ss
    else climbs (depth + 1) ss

theorem climbs_idle {s : Text} (h : IsIdle s) (depth : Nat) (ss : List Text) :
    climbs depth (s :: ss) = climbs depth ss := by
  rw [climbs]
  exact if_pos h

theorem climbs_back (depth : Nat) (ss : List Text) :
    climbs depth (['.', '.'] :: ss) = (depth == 0 || climbs (depth - 1) ss) := by
  rw [climbs, if_neg (by simp), if_pos rfl]

theorem climbs_name {s : Text} (h : IsChildName s) (depth : Nat) (ss : List Text) :
    climbs depth (s :: ss) = climbs (depth + 1) ss := by
  rw [climbs]
  exact (if_neg h.not_idle).trans (if_neg h.ne_parent)

theorem climbs_eq_false {depth : Nat} {ss : List Text} (h : ['.', '.'] ∉ ss) :
    climbs depth ss = false := by
  induction ss generalizing depth with
  | nil => rfl
  | cons s ss ih =>
    rw [List.mem_cons, not_or] at h
    rw [climbs, if_neg (Ne.symm h.1)]
    split_ifs <;> exact ih h.2

theorem not_mem_segments_of_continues {q rest p s : Text} (h : Continues q rest p)
    (hs : s ≠ []) (hp : s ∉ segments p) : s ∉ segments rest := by
  intro hrest
  apply hp
  rw [h.text]
  rcases h.seam with rfl | ⟨rfl, -⟩ | rfl | ⟨-, r, rfl⟩
  · exact absurd (List.mem_singleton.1 hrest) hs
  · exact hrest
  · exact List.mem_cons_of_mem _ hrest
  · rw [segments_append]
    exact List.mem_append_right _ ((List.mem_cons.1 hrest).resolve_left hs)

end Path

namespace FileTree

open TemplateCatalog.Path

variable {t : FileTree}

/-- Segments that do not climb out lead to a place below. -/
theorem prefix_of_follow {p names q : Place} {ss : List Text}
    (hq : t.follow (p ++ names) ss = .ok q) (hss : climbs names.length ss = false) :
    p <+: q := by
  induction ss generalizing names with
  | nil => exact follow_nil_eq_ok_iff.1 hq ▸ List.prefix_append p names
  | cons s ss ih =>
    obtain ⟨r, hr, hfollow⟩ := follow_cons_eq_ok_iff.1 hq
    cases hr with
    | idle _ hidle =>
      rw [climbs_idle hidle] at hss
      exact ih hfollow hss
    | back _ hback =>
      subst hback
      rw [climbs_back, Bool.or_eq_false_iff] at hss
      -- The segments do not climb further than the names go down.
      have hnames : names ≠ [] := by
        rintro rfl
        cases hss.1
      rw [List.dropLast_append_of_ne_nil hnames] at hfollow
      exact ih hfollow (by rw [List.length_dropLast]; exact hss.2)
    | enter _ hname _ =>
      rw [climbs_name hname] at hss
      rw [List.append_assoc] at hfollow
      exact ih hfollow (by rwa [List.length_append])

end FileTree

/-! ### The search -/

theorem findConfig?_here {tree : FileTree} {directory : Text}
    (h : tree.existsAt (Path.join directory configFileName) = true) :
    findConfig? tree directory = some (Path.join directory configFileName) := by
  rw [findConfig?, if_pos h]

theorem findConfig?_outwards {tree : FileTree} {directory parent : Text}
    (hfile : ¬tree.existsAt (Path.join directory configFileName) = true)
    (hmark : ¬tree.existsAt (Path.join directory repositoryMark) = true)
    (hparent : Path.parent? directory = some parent) :
    findConfig? tree directory = findConfig? tree parent := by
  rw [findConfig?, if_neg hfile, if_neg hmark]
  split
  · rename_i h
    cases hparent.symm.trans h
  · rename_i h
    cases hparent.symm.trans h
    rfl

/-- What is found is the configuration file of the start directory or of a path that the start
path goes on from. -/
theorem exists_continues_of_findConfig? {tree : FileTree} {directory file : Text}
    (h : findConfig? tree directory = some file) :
    ∃ outer rest, Path.Continues outer rest directory ∧ file = Path.join outer configFileName ∧
      tree.existsAt file = true := by
  fun_induction findConfig? tree directory with
  | case1 d file hfile =>
    obtain rfl := Option.some.inj h
    exact ⟨d, [], .refl d, rfl, hfile⟩
  | case2 => cases h
  | case3 => cases h
  | case4 d _ _ _ parent hparent ih =>
    obtain ⟨rest, hrest⟩ := Path.parent?_continues hparent
    obtain ⟨outer, more, hmore, hfile⟩ := ih h
    exact ⟨outer, more ++ rest, hmore.trans hrest, hfile⟩

/-- What has a name in the directory that a path leads to. -/
theorem FileTree.place_of_locate_join {t : FileTree} {path name : Text} {p q : Place}
    (hname : Path.IsChildName name) (hslash : '/' ∉ name) (hpath : t.locate path = .ok p)
    (hq : t.locate (Path.join path name) = .ok q) : q = p ++ [name] ∧
      t.at? p = some .directory := by
  rw [locate_join hpath (Path.isAbsolute_of_not_mem hslash),
    Path.segments_of_not_mem hslash] at hq
  obtain ⟨r, hr, hqr⟩ := follow_cons_eq_ok_iff.1 hq
  obtain rfl := follow_nil_eq_ok_iff.1 hqr
  refine ⟨?_, hr.directory⟩
  cases hr with
  | idle _ hidle => exact absurd hidle hname.not_idle
  | back _ hback => exact absurd hback hname.ne_parent
  | enter => rfl

/-- The configuration file that is found lies in a directory from which the end of the start
path leads to the start directory. Nothing in front of that end stands for the directory that
the start path is followed from. -/
theorem locate_configFile {tree : FileTree} {outer rest directory : Text} {place : Place}
    (hrest : Path.Continues outer rest directory) (hplace : tree.locate directory = .ok place)
    (hfile : tree.existsAt (Path.join outer configFileName) = true) :
    ∃ inner, tree.locate (Path.join outer configFileName) = .ok (inner ++ [configFileName]) ∧
      tree.follow inner (Path.segments rest) = .ok place := by
  obtain ⟨hname, hslash⟩ := CommandLine.isChildName_configFileName
  obtain ⟨q, hq, -⟩ := FileTree.existsAt_iff.1 hfile
  rcases hrest.seam with rfl | ⟨rfl, habs⟩ | rfl | ⟨hne, r, rfl⟩
  · -- The search has not left the start directory.
    rw [hrest.text, List.append_nil] at hplace
    obtain ⟨rfl, hdir⟩ := FileTree.place_of_locate_join hname hslash hplace hq
    exact ⟨place, hq, FileTree.follow_idle hdir fun s hs => Or.inl (List.mem_singleton.1 hs)⟩
  · have hq' : tree.locate configFileName = .ok q := hq
    obtain ⟨rfl, -⟩ := (FileTree.locate_name_eq_ok_iff hname hslash).1 hq'
    rw [hrest.text, List.nil_append, FileTree.locate_eq_ok_iff,
      FileTree.start_relative habs] at hplace
    exact ⟨tree.here, hq, hplace.2⟩
  · obtain ⟨rfl, -⟩ := FileTree.place_of_locate_join hname hslash tree.locate_root hq
    rw [hrest.text] at hplace
    exact ⟨[], hq, FileTree.locate_root_append.1 hplace⟩
  · obtain ⟨-, hfollow⟩ := FileTree.locate_eq_ok_iff.1 hplace
    rw [hrest.text, FileTree.start_append hne, Path.segments_append,
      FileTree.follow_append_eq_ok_iff] at hfollow
    obtain ⟨inner, hinner, hfollow⟩ := hfollow
    have houter : tree.locate outer = .ok inner := FileTree.locate_eq_ok_iff.2 ⟨hne, hinner⟩
    obtain ⟨rfl, hdir⟩ := FileTree.place_of_locate_join hname hslash houter hq
    exact ⟨inner, hq,
      FileTree.follow_cons_eq_ok_iff.2 ⟨inner, .idle hdir (Or.inl rfl), hfollow⟩⟩

/-- **The configuration lies around the start directory.** The file that is found lies in the
directory that a front part of the start path names, and the rest of that path leads from there
to the start directory. So the file lies in the start directory or in one that contains it, if
the rest does not climb out, and at any rate if there is no `..` in the start path. -/
theorem config_lies_around {tree : FileTree} {directory file : Text} {place : Place}
    (hplace : tree.locate directory = .ok place)
    (hfile : findConfig? tree directory = some file) :
    ∃ outer rest inner, Path.Continues outer rest directory ∧
      file = Path.join outer configFileName ∧
      tree.locate file = .ok (inner ++ [configFileName]) ∧
      tree.follow inner (Path.segments rest) = .ok place ∧
      (Path.climbs 0 (Path.segments rest) = false → inner <+: place) ∧
      (['.', '.'] ∉ Path.segments directory → inner <+: place) := by
  obtain ⟨outer, rest, hrest, rfl, hexists⟩ := exists_continues_of_findConfig? hfile
  obtain ⟨inner, hlocate, hfollow⟩ := locate_configFile hrest hplace hexists
  have haround (hclimbs : Path.climbs 0 (Path.segments rest) = false) : inner <+: place := by
    have hfollow : tree.follow (inner ++ []) (Path.segments rest) = .ok place := by
      rwa [List.append_nil]
    exact FileTree.prefix_of_follow hfollow hclimbs
  refine ⟨outer, rest, inner, hrest, rfl, hlocate, hfollow, haround, fun hparent => haround ?_⟩
  exact Path.climbs_eq_false (Path.not_mem_segments_of_continues hrest (by simp) hparent)

/-! ### Two start paths -/

/-- A directory with a configuration, and an empty one inside of it. -/
def nestedTree : FileTree where
  items :=
    [(["a".toList], .directory), (["a".toList, configFileName], .file .empty),
      (["a".toList, "b".toList], .directory)]

/-- From the directory inside the configuration of the one around it is found, also by an
absolute path. -/
theorem config_lies_around_nested :
    nestedTree.locate "a/b".toList = .ok ["a".toList, "b".toList] ∧
      findConfig? nestedTree "a/b".toList = some "a/.tplxrc.json".toList ∧
      (∃ inner, nestedTree.locate "a/.tplxrc.json".toList = .ok (inner ++ [configFileName]) ∧
        inner <+: ["a".toList, "b".toList]) ∧
      findConfig? nestedTree "/a/b".toList = some "/a/.tplxrc.json".toList ∧
      ∃ inner, nestedTree.locate "/a/.tplxrc.json".toList = .ok (inner ++ [configFileName]) ∧
        inner <+: ["a".toList, "b".toList] := by
  have hplace : nestedTree.locate "a/b".toList = .ok ["a".toList, "b".toList] := by decide
  have hparent : Path.parent? "a/b".toList = some "a".toList := by decide
  have hfile : findConfig? nestedTree "a/b".toList = some "a/.tplxrc.json".toList :=
    (findConfig?_outwards (by decide) (by decide) hparent).trans
      (findConfig?_here (by decide))
  obtain ⟨-, -, inner, -, -, hlocate, -, -, haround⟩ := config_lies_around hplace hfile
  -- The same from the root of the file system.
  have hplace' : nestedTree.locate "/a/b".toList = .ok ["a".toList, "b".toList] := by decide
  have hparent' : Path.parent? "/a/b".toList = some "/a".toList := by decide
  have hfile' : findConfig? nestedTree "/a/b".toList = some "/a/.tplxrc.json".toList :=
    (findConfig?_outwards (by decide) (by decide) hparent').trans
      (findConfig?_here (by decide))
  obtain ⟨-, -, inner', -, -, hlocate', -, -, haround'⟩ := config_lies_around hplace' hfile'
  exact ⟨hplace, hfile, ⟨inner, hlocate, haround (by decide)⟩, hfile', inner', hlocate',
    haround' (by decide)⟩

/-- The search that starts in the working directory finds the configuration of a directory
inside of it. -/
theorem config_lies_around_climbing :
    nestedTree.locate "a/..".toList = .ok [] ∧
      findConfig? nestedTree "a/..".toList = some "a/.tplxrc.json".toList ∧
      nestedTree.locate "a/.tplxrc.json".toList = .ok ["a".toList, configFileName] ∧
      ¬["a".toList] <+: [] := by
  have hparent : Path.parent? "a/..".toList = some "a".toList := by decide
  refine ⟨by decide, ?_, by decide, by decide⟩
  exact (findConfig?_outwards (by decide) (by decide) hparent).trans
    (findConfig?_here (by decide))

end TemplateCatalog
