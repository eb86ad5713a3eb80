/-
How often a scan finds a template.

A scan tells files apart by the texts of their paths. A walk writes the names on the way to a
file behind the path that it starts at, with separators (`slashed_pathBelow`), so two walks
write one file alike exactly if one of them starts where the other has written the same text on
its way (`SpelledAlike`).

The main result, `templates_found_once`, says that a template is found under one path exactly
if it is found from starts that are spelled alike, and that all starts are if the includes are
paths of names (`IsTidy`). Other includes lead to starts with another text: `./a`, and a
pattern below the working directory, which is expanded without the `.` in front. What is found
from both starts is then found twice.
-/
import TemplateCatalog.Proofs.FoundFiles
import TemplateCatalog.Proofs.LiteralIgnores

namespace TemplateCatalog

/-! ### Paths segment by segment -/

namespace Path

/-- A segment that is a component wherever it stands. -/
def IsSolid (s : Text) : Prop := ¬IsIdle s ∧ '/' ∉ s

instance (s : Text) : Decidable (IsSolid s) :=
  inferInstanceAs (Decidable (¬(s = [] ∨ s = ['.']) ∧ '/' ∉ s))

/-- Segments with a separator behind each. -/
def way (ss : List Text) : Text := ss.flatMap (· ++ ['/'])

/-- A path with a separator at its end. -/
def slashed (p : Text) : Text := if p.getLast? = some '/' then p else p ++ ['/']

variable {p q : Text} {ss tt : List Text}

@[simp] theorem way_nil : way [] = [] := rfl

@[simp] theorem way_cons (s : Text) (ss : List Text) : way (s :: ss) = s ++ '/' :: way ss := by
  simp [way]

@[simp] theorem way_append (ss tt : List Text) : way (ss ++ tt) = way ss ++ way tt :=
  List.flatMap_append

theorem way_eq_intercalate (hne : ss ≠ []) : way ss = ['/'].intercalate ss ++ ['/'] := by
  induction ss with
  | nil => exact absurd rfl hne
  | cons s ss ih =>
    cases ss with
    | nil => simp
    | cons t tt =>
      rw [way_cons, ih (List.cons_ne_nil _ _), List.intercalate_cons_cons]
      simp

theorem intercalate_concat (ss : List Text) (s : Text) :
    ['/'].intercalate (ss ++ [s]) = way ss ++ s := by
  have h := way_eq_intercalate (List.append_ne_nil_of_right_ne_nil ss (List.cons_ne_nil s []))
  rw [way_append, way_cons, way_nil, ← List.singleton_append, List.append_nil,
    ← List.append_assoc] at h
  exact (List.append_cancel_right h).symm

theorem segments_way (h : ∀ s ∈ ss, '/' ∉ s) : segments (way ss) = ss ++ [[]] := by
  induction ss with
  | nil => rfl
  | cons s ss ih =>
    obtain ⟨hs, hss⟩ := List.forall_mem_cons.1 h
    rw [way_cons, segments_append, segments_of_not_mem hs, ih hss]
    rfl

theorem isAbsolute_way (h : ∀ s ∈ ss, IsSolid s) : isAbsolute (way ss) = false := by
  cases ss with
  | nil => rfl
  | cons s ss =>
    obtain ⟨hidle, hslash⟩ := h s List.mem_cons_self
    rw [way_cons, isAbsolute_append fun hs => hidle (Or.inl hs)]
    exact isAbsolute_of_not_mem hslash

theorem slashed_of_getLast?_ne (h : p.getLast? ≠ some '/') : slashed p = p ++ ['/'] := if_neg h

theorem getLast?_slashed (p : Text) : (slashed p).getLast? = some '/' := by
  rw [slashed]
  split_ifs with h
  · exact h
  · simp

theorem getLast?_append_way {u : Text} (hu : u.getLast? = some '/') (ss : List Text) :
    (u ++ way ss).getLast? = some '/' := by
  cases ss using List.reverseRecOn with
  | nil => rwa [way_nil, List.append_nil]
  | append_singleton ss s => simp

/-- A text that ends in a segment does not end in a separator. -/
theorem getLast?_append_solid {s : Text} (h : IsSolid s) (u : Text) :
    (u ++ s).getLast? ≠ some '/' := by
  rw [List.getLast?_append_of_ne_nil _ fun hnil => h.1 (Or.inl hnil)]
  exact fun hlast => h.2 (List.mem_of_getLast? hlast)

theorem join_eq_slashed_append (hp : p ≠ []) (hq : isAbsolute q = false) :
    join p q = slashed p ++ q := by
  have hempty : p.isEmpty = false := by simpa using hp
  rw [join, slashed, hq, if_neg Bool.false_ne_true, hempty, Bool.false_or]
  by_cases hlast : p.getLast? = some '/'
  · simp [hlast]
  · simp [hlast]

theorem plain_slashed (hp : p ≠ []) : plain (slashed p) = plain p := by
  rw [slashed]
  split_ifs
  · rfl
  · rw [plain, plain, components_append_slash hp]

/-! ### Components from segments -/

theorem ofSegment_solid {s : Text} (h : IsSolid s) :
    ∃ c, ofSegment s = some c ∧ c ≠ .current ∧ pieceText c = s := by
  by_cases hparent : s = ['.', '.']
  · exact ⟨.parent, by rw [hparent]; rfl, nofun, hparent.symm⟩
  · exact ⟨.name s, ofSegment_childName ⟨h.1, hparent⟩, nofun, rfl⟩

/-- The components of solid segments spell the segments. -/
theorem map_pieceText_ofSegment (h : ∀ s ∈ ss, IsSolid s) :
    (ss.filterMap ofSegment).map pieceText = ss := by
  induction ss with
  | nil => rfl
  | cons s ss ih =>
    obtain ⟨hs, hss⟩ := List.forall_mem_cons.1 h
    obtain ⟨c, hc, -, hpiece⟩ := ofSegment_solid hs
    rw [List.filterMap_cons_some hc, List.map_cons, hpiece, ih hss]

theorem filterMap_ofSegment_inj (hss : ∀ s ∈ ss, IsSolid s) (htt : ∀ s ∈ tt, IsSolid s)
    (h : ss.filterMap ofSegment = tt.filterMap ofSegment) : ss = tt := by
  rw [← map_pieceText_ofSegment hss, h, map_pieceText_ofSegment htt]

/-- Behind a path solid segments are the components that follow. -/
theorem plain_slashed_append_way (hp : p ≠ []) (h : ∀ s ∈ ss, IsSolid s) :
    plain (slashed p ++ way ss) = plain p ++ ss.filterMap ofSegment := by
  have hcurrent : ∀ c ∈ ss.filterMap ofSegment, decide (c ≠ .current) = true := by
    intro c hc
    obtain ⟨s, hs, hsc⟩ := List.mem_filterMap.1 hc
    obtain ⟨c', hc', hne, -⟩ := ofSegment_solid (h s hs)
    rw [hc', Option.some.injEq] at hsc
    simpa [hsc] using hne
  have hcomponents : (segments (way ss)).filterMap ofSegment = ss.filterMap ofSegment := by
    rw [segments_way fun s hs => (h s hs).2, List.filterMap_append]
    exact List.append_nil _
  rw [← join_eq_slashed_append hp (isAbsolute_way h), plain,
    components_join hp (isAbsolute_way h), hcomponents, List.filter_append,
    List.filter_eq_self.2 hcurrent, plain]

/-! ### Paths that are spelled alike -/

/-- The path `q` is written as the path `p` with segments behind it. -/
def GoesOn (p q : Text) : Prop := ∃ ss, (∀ s ∈ ss, IsSolid s) ∧ slashed q = slashed p ++ way ss

/-- One of the paths is written as the other with segments behind it. -/
def SpelledAlike (p q : Text) : Prop := GoesOn p q ∨ GoesOn q p

theorem GoesOn.refl (p : Text) : GoesOn p p := ⟨[], nofun, (List.append_nil _).symm⟩

theorem GoesOn.trans {o p q : Text} (h : GoesOn o p) (h' : GoesOn p q) : GoesOn o q := by
  obtain ⟨ss, hss, hp⟩ := h
  obtain ⟨tt, htt, hq⟩ := h'
  exact ⟨ss ++ tt,
    List.forall_mem_append.2 ⟨hss, htt⟩, by rw [hq, hp, way_append, List.append_assoc]⟩

/-- What goes on from one path with the same components is written alike. -/
theorem GoesOn.slashed_eq {o : Text} (hp : GoesOn o p) (hq : GoesOn o q) (ho : o ≠ [])
    (hpne : p ≠ []) (hqne : q ≠ []) (h : plain p = plain q) : slashed p = slashed q := by
  obtain ⟨ss, hss, hp⟩ := hp
  obtain ⟨tt, htt, hq⟩ := hq
  rw [← plain_slashed hpne, ← plain_slashed hqne, hp, hq, plain_slashed_append_way ho hss,
    plain_slashed_append_way ho htt, List.append_cancel_left_eq] at h
  rw [hp, hq, filterMap_ofSegment_inj hss htt h]

/-- Of two ways to the same text the longer one goes on to where the other starts. -/
theorem exists_way_of_append_eq {u v : Text} (hu : u.getLast? = some '/')
    (hv : v.getLast? = some '/') (hss : ∀ s ∈ ss, '/' ∉ s) (htt : ∀ s ∈ tt, '/' ∉ s)
    (h : u ++ way ss = v ++ way tt) :
    (∃ rr, ss = rr ++ tt ∧ v = u ++ way rr) ∨ ∃ rr, tt = rr ++ ss ∧ u = v ++ way rr := by
  induction ss using List.reverseRecOn generalizing tt with
  | nil => exact Or.inr ⟨tt, (List.append_nil tt).symm, by simpa using h⟩
  | append_singleton ss s ih =>
    cases tt using List.reverseRecOn with
    | nil => exact Or.inl ⟨ss ++ [s], (List.append_nil _).symm, by simpa using h.symm⟩
    | append_singleton tt t =>
      rw [List.forall_mem_append] at hss htt
      have h : ((u ++ way ss) ++ s) ++ ['/'] = ((v ++ way tt) ++ t) ++ ['/'] := by
        simpa using h
      -- The last segments are equal, and what stands in front of them is two ways to one text
      -- again.
      obtain ⟨hway, rfl⟩ :=
        append_inj_of_getLast? (getLast?_append_way hu ss) (getLast?_append_way hv tt)
        (hss.2 s (List.mem_singleton_self s)) (htt.2 t (List.mem_singleton_self t))
        (List.append_cancel_right h)
      rcases ih hss.1 htt.1 hway with ⟨rr, rfl, hv⟩ | ⟨rr, rfl, hu⟩
      · exact Or.inl ⟨rr, List.append_assoc .., hv⟩
      · exact Or.inr ⟨rr, List.append_assoc .., hu⟩

/-- Two paths that name the same are written alike exactly if they go on from paths that are
spelled alike. -/
theorem slashed_eq_iff_spelledAlike {a b : Text} (hp : GoesOn a p) (hq : GoesOn b q)
    (ha : a ≠ []) (hb : b ≠ []) (hpne : p ≠ []) (hqne : q ≠ []) (h : plain p = plain q) :
    slashed p = slashed q ↔ SpelledAlike a b := by
  constructor
  · intro heq
    obtain ⟨ss, hss, hp⟩ := hp
    obtain ⟨tt, htt, hq⟩ := hq
    rcases exists_way_of_append_eq (getLast?_slashed a) (getLast?_slashed b)
      (fun s hs => (hss s hs).2) (fun s hs => (htt s hs).2)
      (hp.symm.trans (heq.trans hq)) with ⟨rr, rfl, hb⟩ | ⟨rr, rfl, ha⟩
    · exact Or.inl ⟨rr, fun s hs => hss s (List.mem_append_left _ hs), hb⟩
    · exact Or.inr ⟨rr, fun s hs => htt s (List.mem_append_left _ hs), ha⟩
  · rintro (hab | hba)
    · exact hp.slashed_eq (hab.trans hq) ha hpne hqne h
    · exact (hba.trans hp).slashed_eq hq hb hpne hqne h

/-- The path is written as segments with one separator between them, and at most one at the
end. -/
def IsTidy (p : Text) : Prop := ∃ ss, (∀ s ∈ ss, IsSolid s) ∧
    (p = way ss ∨ p ++ ['/'] = way ss)

theorem IsTidy.isAbsolute (h : IsTidy q) : isAbsolute q = false := by
  obtain ⟨ss, hss, hq | hq⟩ := h
  · rw [hq, isAbsolute_way hss]
  · cases q with
    | nil => rfl
    | cons c r => rw [← isAbsolute_append (List.cons_ne_nil c r) ['/'], hq, isAbsolute_way hss]

/-- What is written with single separators goes on from the path that it is joined to. -/
theorem IsTidy.goesOn_join (h : IsTidy q) (hp : p ≠ []) : GoesOn p (join p q) := by
  rw [GoesOn, join_eq_slashed_append hp h.isAbsolute]
  obtain ⟨ss, hss, hq | hq⟩ := h
  · exact ⟨ss, hss, by rw [slashed, hq, if_pos (getLast?_append_way (getLast?_slashed p) ss)]⟩
  · refine ⟨ss, hss, ?_⟩
    cases ss using List.reverseRecOn with
    | nil => simp at hq
    | append_singleton front s =>
      -- Without a separator at its end the path ends in its last segment.
      have hq' : q = way front ++ s := by
        refine List.append_cancel_right (hq.trans ?_ : q ++ ['/'] = way front ++ s ++ ['/'])
        simp
      have hs := (List.forall_mem_append.1 hss).2 s (List.mem_singleton_self s)
      rw [slashed_of_getLast?_ne
        (by rw [hq', ← List.append_assoc]; exact getLast?_append_solid hs _),
        List.append_assoc, hq]

end Path

open TemplateCatalog.Path

/-! ### What a walk writes -/

namespace FileTree

variable {t : FileTree} {path file : Text} {p names : Place}

/-- Names are written behind the path that they start from, the last one without a
separator. -/
theorem slashed_pathBelow (hpath : path ≠ []) (h : ∀ s ∈ names, IsChildName s ∧ '/' ∉ s) :
    slashed (pathBelow path names) = slashed path ++ way names ∧
      (names ≠ [] → (pathBelow path names).getLast? ≠ some '/') := by
  cases names using List.reverseRecOn with
  | nil => exact ⟨by simp [pathBelow], fun hne => absurd rfl hne⟩
  | append_singleton front s =>
    have hne : front ++ [s] ≠ [] := by simp
    have hs := (List.forall_mem_append.1 h).2 s (List.mem_singleton_self s)
    -- The last name stands alone behind the way to it.
    have htext : pathBelow path (front ++ [s]) = (slashed path ++ way front) ++ s := by
      rw [pathBelow, if_neg hne, join_eq_slashed_append hpath (intercalate_names hne h).2,
        intercalate_concat, List.append_assoc]
    have hlast : (pathBelow path (front ++ [s])).getLast? ≠ some '/' :=
      htext ▸ getLast?_append_solid ⟨hs.1.not_idle, hs.2⟩ _
    refine ⟨?_, fun _ => hlast⟩
    rw [slashed_of_getLast?_ne hlast, htext]
    simp

/-- A path with a separator at its end leads to a directory. -/
theorem getLast?_ne_of_file {bytes : ByteArray} (hpath : t.locate path = .ok p)
    (hp : t.at? p = some (.file bytes)) : path.getLast? ≠ some '/' := by
  intro hlast
  obtain ⟨front, rfl⟩ := List.getLast?_eq_some_iff.1 hlast
  have hne : front ≠ [] := by
    rintro rfl
    obtain rfl := Except.ok.inj (hpath.symm.trans t.locate_root)
    cases hp.symm.trans t.at?_nil
  have hfront := locate_of_append_slash hne hpath
  obtain ⟨q, hq, hqp⟩ := follow_cons_eq_ok_iff.1 ((locate_append hfront).1 hpath)
  obtain rfl := step_idle (Or.inl rfl) (step_eq_ok_iff.2 hq)
  cases hp.symm.trans hq.directory

/-- A file of a walk is written as the start of the walk and the names on the way, without a
separator at the end. -/
theorem IsSound.goesOn_of_mem_walked (hu : t.IsSound) (h : file ∈ Scan.walked t path) :
    GoesOn path file ∧ path ≠ [] ∧ file ≠ [] ∧ file.getLast? ≠ some '/' := by
  obtain ⟨p, hp, hfile⟩ := mem_walked_iff.1 h
  have hne := (locate_eq_ok_iff.1 hp).1
  rcases hfile with ⟨bytes, hat, rfl⟩ | ⟨-, names, bytes, hmem, hfile⟩
  · exact ⟨.refl file, hne, hne, getLast?_ne_of_file hp hat⟩
  · obtain ⟨hnames, hitem⟩ := mem_descendants_iff.1 hmem
    have hchild : ∀ s ∈ names, IsChildName s ∧ '/' ∉ s :=
      fun s hs => (hu.reached hitem).names s (List.mem_append_right _ hs)
    obtain ⟨hslashed, hlast⟩ := slashed_pathBelow hne hchild
    rw [pathBelow, if_neg hnames, ← hfile] at hslashed hlast
    exact ⟨⟨names, fun s hs => ⟨(hchild s hs).1.not_idle, (hchild s hs).2⟩, hslashed⟩, hne,
      hfile ▸ join_ne_nil hne _, hlast hnames⟩

theorem eq_iff_slashed_eq {f g : Text} (hf : f.getLast? ≠ some '/')
    (hg : g.getLast? ≠ some '/') : f = g ↔ slashed f = slashed g := by
  rw [slashed_of_getLast?_ne hf, slashed_of_getLast?_ne hg, List.append_cancel_right_eq]

/-- Two walks write one file alike exactly if they start at paths that are spelled alike. -/
theorem IsSound.eq_iff_spelledAlike (hu : t.IsSound) {a b f g : Text}
    (hf : f ∈ Scan.walked t a) (hg : g ∈ Scan.walked t b) (h : plain f = plain g) : f = g ↔
      SpelledAlike a b := by
  obtain ⟨haf, ha, hfne, hlastf⟩ := hu.goesOn_of_mem_walked hf
  obtain ⟨hbg, hb, hgne, hlastg⟩ := hu.goesOn_of_mem_walked hg
  rw [eq_iff_slashed_eq hlastf hlastg, slashed_eq_iff_spelledAlike haf hbg ha hb hfne hgne h]

end FileTree

/-! ### The main result -/

namespace Scan

variable {tree : FileTree} {base : Text} {c : Config}

/-- **When templates are found once.** Two paths to one template that are found are the same
exactly if they are found from starts that are spelled alike. So no template is found twice if
the includes are paths of segments with single separators. -/
theorem templates_found_once (hu : tree.IsSound) :
    (∀ f ∈ (run tree base c).files, ∀ g ∈ (run tree base c).files, plain f = plain g →
      (f = g ↔ ∃ a b, IsStart tree base c.includes a ∧ IsStart tree base c.includes b ∧
        f ∈ walked tree a ∧ g ∈ walked tree b ∧ SpelledAlike a b)) ∧
    (base ≠ [] → (∀ i ∈ c.includes, hasWildcard i = false ∧ IsTidy i) →
      ∀ f ∈ (run tree base c).files, ∀ g ∈ (run tree base c).files, plain f = plain g →
        f = g) := by
  have hstart {f : Text} (hf : f ∈ (run tree base c).files) :
      ∃ a, IsStart tree base c.includes a ∧ f ∈ walked tree a := by
    obtain ⟨⟨a, ha, hwalked⟩, -⟩ := FileTree.mem_files_iff.1 hf
    exact ⟨a, mem_startPaths_iff_isStart.1 ha, hwalked⟩
  refine ⟨fun f hf g hg h => ⟨?_, ?_⟩, fun hbase hincludes f hf g hg h => ?_⟩
  · rintro rfl
    obtain ⟨a, ha, hwalked⟩ := hstart hf
    exact ⟨a, a, ha, ha, hwalked, hwalked, Or.inl (.refl a)⟩
  · rintro ⟨a, b, -, -, hf, hg, halike⟩
    exact (hu.eq_iff_spelledAlike hf hg h).2 halike
  · -- With tidy includes all walks start at paths that go on from the base directory.
    have hgoes {a : Text} (ha : IsStart tree base c.includes a) : GoesOn base a := by
      cases ha with
      | base => exact .refl base
      | path hi => exact (hincludes _ hi).2.goesOn_join hbase
      | pattern hi hwild =>
        exact absurd ((hincludes _ hi).1.symm.trans hwild) Bool.false_ne_true
    obtain ⟨a, ha, hf⟩ := hstart hf
    obtain ⟨b, hb, hg⟩ := hstart hg
    obtain ⟨haf, -, hfne, hlastf⟩ := hu.goesOn_of_mem_walked hf
    obtain ⟨hbg, -, hgne, hlastg⟩ := hu.goesOn_of_mem_walked hg
    rw [FileTree.eq_iff_slashed_eq hlastf hlastg]
    exact ((hgoes ha).trans haf).slashed_eq ((hgoes hb).trans hbg) hbase hfne hgne h

/-- With includes of one directory inside of another, and one of them twice. -/
theorem templates_found_once_overlapping :
    let c : Config := { includes := [[], "s/".toList, "s".toList] }
    twoDirectories.IsSound ∧ (∀ i ∈ c.includes, hasWildcard i = false ∧ IsTidy i) ∧
      "./s/t.html".toList ∈ (run twoDirectories ".".toList c).files ∧
      ∀ g ∈ (run twoDirectories ".".toList c).files, plain "./s/t.html".toList = plain g →
        "./s/t.html".toList = g := by
  intro c
  have hincludes : ∀ i ∈ c.includes, hasWildcard i = false ∧ IsTidy i := by
    intro i hi
    rcases List.mem_cons.1 hi with rfl | hi
    · exact ⟨rfl, [], by decide, Or.inl rfl⟩
    · refine ⟨by revert i; decide, ["s".toList], by decide, ?_⟩
      revert i
      decide
  have hmem : "./s/t.html".toList ∈ (run twoDirectories ".".toList c).files :=
    FileTree.mem_files_iff.2 (by decide +kernel)
  obtain ⟨-, honce⟩ := @templates_found_once twoDirectories ".".toList c isSound_twoDirectories
  exact ⟨isSound_twoDirectories, hincludes, hmem, honce (by decide) hincludes _ hmem⟩

/-- In the working directory, named `.`, the templates of a directory are found twice: if a
pattern leads to it as well, or if it is also written with a `.` in front. -/
theorem templates_found_once_twoSpellings :
    let pattern : Config := { includes := ["s".toList, "*".toList] }
    let dotted : Config := { includes := ["s".toList, "./s".toList] }
    let foundOnce (c : Config) := ∀ f ∈ (run twoDirectories ".".toList c).files,
      ∀ g ∈ (run twoDirectories ".".toList c).files, plain f = plain g → f = g
    twoDirectories.IsConsistent ∧ pattern.fault? = none ∧ dotted.fault? = none ∧
      (run twoDirectories ".".toList pattern).files =
        ["./s/t.html".toList, "s/t.html".toList, "x/t.html".toList] ∧
      (run twoDirectories ".".toList dotted).files =
        ["././s/t.html".toList, "./s/t.html".toList] ∧
      ¬foundOnce pattern ∧ ¬foundOnce dotted := by
  intro pattern dotted foundOnce
  have hpattern :
      (run twoDirectories ".".toList { includes := ["s".toList, "*".toList] }).files =
        ["./s/t.html".toList, "s/t.html".toList, "x/t.html".toList] :=
    FileTree.files_eq_of_pairwise (by decide) (by decide +kernel) (by decide +kernel)
  have hdotted :
      (run twoDirectories ".".toList { includes := ["s".toList, "./s".toList] }).files =
        ["././s/t.html".toList, "./s/t.html".toList] :=
    FileTree.files_eq_of_pairwise (by decide) (by decide +kernel) (by decide +kernel)
  refine ⟨isConsistent_twoDirectories, by decide +kernel, by decide +kernel, hpattern, hdotted,
    fun h => ?_, fun h => ?_⟩
  · simp only [foundOnce, pattern, hpattern] at h
    revert h
    decide
  · simp only [foundOnce, dotted, hdotted] at h
    revert h
    decide

end Scan

end TemplateCatalog
