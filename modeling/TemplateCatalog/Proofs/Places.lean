/-
Where paths lead.

A path is followed from the root or from the working directory, segment by segment
(`follow_append_eq_ok_iff`), each step from a directory (`step_eq_ok_iff`). Both can be reached
through directories only, and so can the place that a path leads to (`locate_reached`); from
any directory on the way it is reached by the names that are left (`Reached.follow`). A path
that is made longer leads on from where it led before (`locate_join`, `locate_childPath`).
-/
import TemplateCatalog.Glob.Expansion
import TemplateCatalog.Proofs.Lists
import TemplateCatalog.Proofs.PathComponents

namespace TemplateCatalog

namespace FileTree

open TemplateCatalog.Path

variable {t : FileTree}

/-! ### What is there -/

theorem at?_eq_of_around {p : Place} (h : p <+: t.here) : t.at? p = some .directory :=
  if_pos (List.isPrefixOf_iff_prefix.2 h)

theorem at?_eq_of_apart {p : Place} (h : ¬p <+: t.here) : t.at? p = t.items.lookup p :=
  if_neg (mt List.isPrefixOf_iff_prefix.1 h)

/-- Where no directory is, there is none that holds the working directory. -/
theorem not_prefix_of_at? {p : Place} (h : t.at? p ≠ some .directory) : ¬p <+: t.here :=
  mt at?_eq_of_around h

theorem at?_nil (t : FileTree) : t.at? [] = some .directory := at?_eq_of_around List.nil_prefix

theorem at?_here (t : FileTree) : t.at? t.here = some .directory :=
  at?_eq_of_around List.prefix_rfl

/-- The directories on the way to the working directory, as they are listed. -/
theorem mem_around_iff {p : Place} {item : Item} :
    (p, item) ∈ ((List.range (t.here.length + 1)).map fun n =>
      (t.here.take n, Item.directory)) ↔
      p <+: t.here ∧ item = .directory := by
  rw [List.mem_map]
  constructor
  · rintro ⟨n, -, hn⟩
    cases hn
    exact ⟨List.take_prefix n _, rfl⟩
  · rintro ⟨hp, rfl⟩
    refine ⟨p.length, List.mem_range.2 (Nat.lt_succ_of_le hp.length_le), ?_⟩
    rw [← List.prefix_iff_eq_take.1 hp]

theorem mem_entries_iff {p : Place} {item : Item} :
    (p, item) ∈ t.entries ↔ p <+: t.here ∧ item = .directory ∨ ¬p <+: t.here ∧
      (p, item) ∈ t.items := by
  rw [entries, List.mem_append, mem_around_iff, List.mem_filter]
  refine or_congr_right ?_
  rw [and_comm, Bool.not_eq_true', ← List.isPrefixOf_iff_prefix, Bool.not_eq_true]

/-- What is at a place is what is listed there first. -/
theorem at?_eq_lookup (t : FileTree) (p : Place) : t.at? p = t.entries.lookup p := by
  rw [entries, List.lookup_append]
  by_cases hp : p <+: t.here
  · have hmem := mem_around_iff.2 ⟨hp, Eq.refl Item.directory⟩
    cases hlookup : ((List.range (t.here.length + 1)).map fun n =>
        (t.here.take n, Item.directory)).lookup p with
    | none => exact absurd hmem (not_mem_of_lookup_eq_none hlookup _)
    | some item =>
      obtain ⟨-, rfl⟩ := mem_around_iff.1 (mem_of_lookup_eq_some hlookup)
      exact at?_eq_of_around hp
  · cases hlookup : ((List.range (t.here.length + 1)).map fun n =>
        (t.here.take n, Item.directory)).lookup p with
    | none =>
      -- A place that is not on the way is kept by the filter, so it is looked up among the
      -- items.
      have hkeep : (!p.isPrefixOf t.here) = true := by
        rwa [Bool.not_eq_true', ← Bool.not_eq_true, List.isPrefixOf_iff_prefix]
      rw [at?_eq_of_apart hp, Option.none_or]
      exact (@lookup_filter _ _ _ _ (fun q : Place => !q.isPrefixOf t.here) t.items p
        hkeep).symm
    | some item => exact absurd (mem_around_iff.1 (mem_of_lookup_eq_some hlookup)).1 hp

theorem mem_entries_of_at? {p : Place} {item : Item} (h : t.at? p = some item) :
    (p, item) ∈ t.entries :=
  mem_of_lookup_eq_some (t.at?_eq_lookup p ▸ h)

theorem not_mem_entries_of_at? {p : Place} (h : t.at? p = none) (item : Item) :
    (p, item) ∉ t.entries :=
  not_mem_of_lookup_eq_none (t.at?_eq_lookup p ▸ h) item

/-! ### Steps -/

/-- A step starts from a directory; it stays there, goes back, or enters what has the name
there. -/
inductive Steps (t : FileTree) (p : Place) (s : Text) : Place → Prop
  | idle (hp : t.at? p = some .directory) (hs : IsIdle s) : Steps t p s p
  | back (hp : t.at? p = some .directory) (hs : s = ['.', '.']) : Steps t p s p.dropLast
  | enter (hp : t.at? p = some .directory) (hs : IsChildName s)
      (there : (t.at? (p ++ [s])).isSome) : Steps t p s (p ++ [s])

theorem Steps.directory {p q : Place} {s : Text} (h : t.Steps p s q) :
    t.at? p = some .directory := by
  cases h <;> assumption

theorem step_eq_ok_iff {p q : Place} {s : Text} : t.step p s = .ok q ↔ t.Steps p s q := by
  constructor
  · intro h
    rw [step] at h
    -- Nothing, a file, a directory: only from a directory a step leads on.
    split at h
    · cases h
    · cases h
    · rename_i hp
      split_ifs at h with hidle hparent
      · cases h
        exact .idle hp hidle
      · cases h
        exact .back hp hparent
      · split at h
        · cases h
        · rename_i item hat
          cases h
          exact .enter hp ⟨hidle, hparent⟩ (hat ▸ rfl)
  · rintro (⟨hp, hs⟩ | ⟨hp, rfl⟩ | ⟨hp, hs, there⟩)
    · rw [step, hp]
      exact if_pos hs
    · rw [step, hp]
      rfl
    · obtain ⟨item, hitem⟩ := Option.isSome_iff_exists.1 there
      simp only [step, hp, hitem]
      exact (if_neg hs.not_idle).trans (if_neg hs.ne_parent)

theorem step_idle {p q : Place} {s : Text} (hs : IsIdle s) (h : t.step p s = .ok q) :
    q = p := by
  cases step_eq_ok_iff.1 h with
  | idle => rfl
  | back _ hb => simp [hb, IsIdle] at hs
  | enter _ hn => exact absurd hs hn.not_idle

/-! ### Following segments -/

theorem follow_nil_eq_ok_iff {p q : Place} : t.follow p [] = .ok q ↔ q = p :=
  ⟨fun h => (Except.ok.inj h).symm, fun h => h ▸ rfl⟩

theorem follow_cons_eq_ok_iff {p r : Place} {s : Text} {ss : List Text} :
    t.follow p (s :: ss) = .ok r ↔ ∃ q, t.Steps p s q ∧ t.follow q ss = .ok r := by
  simp only [← step_eq_ok_iff]
  rw [follow]
  cases t.step p s with
  | error e => simp
  | ok q => simp

theorem follow_append_eq_ok_iff {p r : Place} {ss tt : List Text} :
    t.follow p (ss ++ tt) = .ok r ↔ ∃ q, t.follow p ss = .ok q ∧ t.follow q tt = .ok r := by
  induction ss generalizing p with
  | nil => simp only [List.nil_append, follow_nil_eq_ok_iff, exists_eq_left]
  | cons s ss ih =>
    simp only [List.cons_append, follow_cons_eq_ok_iff, ih]
    constructor
    · rintro ⟨q, hq, r, hr, h⟩
      exact ⟨r, ⟨q, hq, hr⟩, h⟩
    · rintro ⟨r, ⟨q, hq, hr⟩, h⟩
      exact ⟨q, hq, r, hr, h⟩

theorem follow_idle {p : Place} {ss : List Text} (hp : t.at? p = some .directory)
    (h : ∀ s ∈ ss, IsIdle s) : t.follow p ss = .ok p := by
  induction ss with
  | nil => rfl
  | cons s ss ih =>
    obtain ⟨hs, hss⟩ := List.forall_mem_cons.1 h
    exact follow_cons_eq_ok_iff.2 ⟨p, .idle hp hs, ih hss⟩

/-! ### Where paths start -/

theorem start_absolute {path : Text} (h : isAbsolute path = true) : t.start path = [] :=
  if_pos h

theorem start_relative {path : Text} (h : isAbsolute path = false) : t.start path = t.here :=
  if_neg (Bool.eq_false_iff.1 h)

theorem start_append {path : Text} (hne : path ≠ []) (rest : Text) :
    t.start (path ++ rest) = t.start path := by
  rw [start, start, isAbsolute_append hne]

theorem locate_eq_ok_iff {path : Text} {p : Place} :
    t.locate path = .ok p ↔ path ≠ [] ∧ t.follow (t.start path) (segments path) = .ok p := by
  rw [locate]
  cases path with
  | nil => simp
  | cons c r => simp

/-! ### Places that are reached -/

/-- A place that can be reached: on the way to it there are directories, entered by names. -/
structure Reached (t : FileTree) (p : Place) : Prop where
  names : ∀ s ∈ p, IsChildName s ∧ '/' ∉ s
  directories : ∀ q, q <+: p → q ≠ p → t.at? q = some .directory
  there : (t.at? p).isSome

/-- The names in a path are names of files. -/
theorem names_of_mem_placeOf {path s : Text} (h : s ∈ placeOf path) :
    IsChildName s ∧ '/' ∉ s := by
  obtain ⟨c, hc, hs⟩ := List.mem_filterMap.1 h
  split at hs
  · cases hs
    exact isValid_of_mem_components hc
  · cases hs

/-- The working directory can be reached, as the directories around it are there. -/
theorem reached_here (t : FileTree) : t.Reached t.here :=
  ⟨fun _ => names_of_mem_placeOf, fun _ hq _ => at?_eq_of_around hq, t.at?_here ▸ rfl⟩

theorem Reached.of_prefix {p q : Place} (h : t.Reached p) (hq : q <+: p) : t.Reached q := by
  by_cases hqp : q = p
  · exact hqp ▸ h
  · refine ⟨fun s hs => h.names s (hq.subset hs), fun r hr hne => ?_, ?_⟩
    · refine h.directories r (hr.trans hq) ?_
      rintro rfl
      exact hne (hr.eq_of_length_le hq.length_le)
    · rw [h.directories q hq hqp]
      rfl

theorem Reached.step {p q : Place} {s : Text} (h : t.Reached p) (hs : '/' ∉ s)
    (hstep : t.Steps p s q) : t.Reached q := by
  cases hstep with
  | idle => exact h
  | back => exact h.of_prefix (List.dropLast_prefix p)
  | enter hp hname there =>
    refine ⟨fun r hr => ?_, fun r hr hne => ?_, there⟩
    · rcases List.mem_append.1 hr with hr | hr
      · exact h.names r hr
      · exact List.mem_singleton.1 hr ▸ ⟨hname, hs⟩
    · rcases List.prefix_concat_iff.1 hr with rfl | hr
      · exact absurd rfl hne
      · by_cases hrp : r = p
        · exact hrp ▸ hp
        · exact h.directories r hr hrp

theorem Reached.of_follow {p q : Place} {ss : List Text} (h : t.Reached p)
    (hss : ∀ s ∈ ss, '/' ∉ s) (hq : t.follow p ss = .ok q) : t.Reached q := by
  induction ss generalizing p with
  | nil => exact follow_nil_eq_ok_iff.1 hq ▸ h
  | cons s ss ih =>
    obtain ⟨hs, hss⟩ := List.forall_mem_cons.1 hss
    obtain ⟨r, hr, hq⟩ := follow_cons_eq_ok_iff.1 hq
    exact ih (h.step hs hr) hss hq

theorem reached_start (t : FileTree) (path : Text) : t.Reached (t.start path) := by
  refine t.reached_here.of_prefix ?_
  rw [start]
  split_ifs
  · exact List.nil_prefix
  · exact List.prefix_rfl

/-- A path leads to places that can be reached. -/
theorem locate_reached {path : Text} {p : Place} (h : t.locate path = .ok p) : t.Reached p :=
  (t.reached_start path).of_follow (fun _ => not_mem_of_mem_segments) (locate_eq_ok_iff.1 h).2

/-- From a place on the way the names that are left lead to the place. -/
theorem Reached.follow {p names : Place} (h : t.Reached (p ++ names)) :
    t.follow p names = .ok (p ++ names) := by
  induction names generalizing p with
  | nil => exact follow_nil_eq_ok_iff.2 (List.append_nil p)
  | cons s names ih =>
    have hsplit : p ++ s :: names = p ++ [s] ++ names := by rw [List.append_assoc]; rfl
    have hp : t.at? p = some .directory :=
      h.directories p (List.prefix_append _ _) (by simp)
    have hs : t.Steps p s (p ++ [s]) := by
      refine .enter hp (h.names s (List.mem_append_right _ List.mem_cons_self)).1 ?_
      exact (h.of_prefix (hsplit ▸ List.prefix_append _ _)).there
    rw [hsplit] at h ⊢
    exact follow_cons_eq_ok_iff.2 ⟨_, hs, ih h⟩

/-! ### Longer paths -/

/-- What stands behind a separator leads on from where the path in front of it leads. -/
theorem locate_append {path rest : Text} {p q : Place} (h : t.locate path = .ok p) :
    t.locate (path ++ '/' :: rest) = .ok q ↔ t.follow p (segments rest) = .ok q := by
  obtain ⟨hne, hp⟩ := locate_eq_ok_iff.1 h
  rw [locate_eq_ok_iff, start_append hne, segments_append, follow_append_eq_ok_iff, hp]
  simp [hne]

/-- From the root of the file system what stands behind the separator leads on. -/
theorem locate_root_append {rest : Text} {q : Place} :
    t.locate ('/' :: rest) = .ok q ↔ t.follow [] (segments rest) = .ok q := by
  have hidle : t.step [] [] = .ok [] := step_eq_ok_iff.2 (.idle t.at?_nil (Or.inl rfl))
  rw [locate_eq_ok_iff, and_iff_right (List.cons_ne_nil _ _), start_absolute rfl, segments,
    if_pos rfl, FileTree.follow, hidle]

theorem locate_root (t : FileTree) : t.locate ['/'] = .ok [] :=
  locate_root_append.2 (follow_idle t.at?_nil fun _ hs => Or.inl (List.mem_singleton.1 hs))

/-- A separator at the end of a path makes no difference, if the path leads anywhere with
it. -/
theorem locate_of_append_slash {path : Text} {p : Place} (hne : path ≠ [])
    (h : t.locate (path ++ ['/']) = .ok p) : t.locate path = .ok p := by
  obtain ⟨-, hp⟩ := locate_eq_ok_iff.1 h
  rw [start_append hne, segments_append, follow_append_eq_ok_iff] at hp
  obtain ⟨q, hq, hlast⟩ := hp
  obtain ⟨r, hr, hrp⟩ := follow_cons_eq_ok_iff.1 hlast
  -- The empty segment behind the separator stays where it is.
  have hrq : r = q := step_idle (Or.inl rfl) (step_eq_ok_iff.2 hr)
  rw [follow_nil_eq_ok_iff.1 hrp, hrq]
  exact locate_eq_ok_iff.2 ⟨hne, hq⟩

/-- A path that is joined to another leads on from where that one leads. -/
theorem locate_join {path rest : Text} {p q : Place} (h : t.locate path = .ok p)
    (hrest : isAbsolute rest = false) :
    t.locate (join path rest) = .ok q ↔ t.follow p (segments rest) = .ok q := by
  by_cases hroot : path = ['/']
  · subst hroot
    obtain rfl := Except.ok.inj (h.symm.trans t.locate_root)
    have hjoin : join ['/'] rest = '/' :: rest := by
      rw [join, hrest]
      rfl
    rw [hjoin, locate_root_append]
  · -- A separator at the end of the path is the one that joining would add.
    obtain ⟨path', hne, -, hpath, hjoin⟩ := join_eq_append (locate_eq_ok_iff.1 h).1 hroot
    rw [hjoin rest hrest]
    rcases hpath with rfl | rfl
    · exact locate_append h
    · exact locate_append (locate_of_append_slash hne h)

/-- A path that names the working directory leads to it. -/
theorem locate_of_isCurrent {path : Text} (h : isCurrent path = true) :
    t.locate path = .ok t.here := by
  obtain ⟨hne, habs, hidle⟩ := idle_of_isCurrent h
  rw [locate_eq_ok_iff, start_relative habs]
  exact ⟨hne, follow_idle t.at?_here hidle⟩

/-- A name inside of a directory leads on from where the directory is. -/
theorem locate_childPath {path name : Text} {p q : Place} (h : t.locate path = .ok p)
    (hname : name ≠ []) (habs : isAbsolute name = false) :
    t.locate (Glob.childPath path name) = .ok q ↔ t.follow p (segments name) = .ok q := by
  rw [Glob.childPath]
  split_ifs with hcurrent
  · obtain rfl : p = t.here := Except.ok.inj (h.symm.trans (locate_of_isCurrent hcurrent))
    rw [locate_eq_ok_iff, start_relative habs]
    simp [hname]
  · exact locate_join h habs

/-- A path of names, one inside of the other, is relative. -/
theorem intercalate_names {names : Place} (hne : names ≠ [])
    (h : ∀ s ∈ names, IsChildName s ∧ '/' ∉ s) :
    ['/'].intercalate names ≠ [] ∧ isAbsolute (['/'].intercalate names) = false := by
  obtain ⟨s, ss, rfl⟩ := List.exists_cons_of_ne_nil hne
  obtain ⟨hs, hslash⟩ := h s List.mem_cons_self
  obtain ⟨rest, hrest⟩ : ∃ rest, ['/'].intercalate (s :: ss) = s ++ rest := by
    cases ss with
    | nil => exact ⟨[], by simp⟩
    | cons s' ss => exact ⟨_, by rw [List.intercalate_cons_cons, List.append_assoc]⟩
  have hsne : s ≠ [] := fun h => hs.not_idle (Or.inl h)
  rw [hrest, isAbsolute_append hsne]
  exact ⟨List.append_ne_nil_of_left_ne_nil hsne _, isAbsolute_of_not_mem hslash⟩

section Names

variable {path : Text} {p names : Place}

/-- The names on the way to a place below a directory make a path to that place. -/
theorem Reached.locate_join (h : t.Reached (p ++ names)) (hne : names ≠ [])
    (hpath : t.locate path = .ok p) :
    t.locate (join path (['/'].intercalate names)) = .ok (p ++ names) := by
  have hnames : ∀ s ∈ names, IsChildName s ∧ '/' ∉ s :=
    fun s hs => h.names s (List.mem_append_right _ hs)
  rw [FileTree.locate_join hpath (intercalate_names hne hnames).2,
    segments_intercalate (fun s hs => (hnames s hs).2) hne]
  exact h.follow

theorem Reached.locate_childPath (h : t.Reached (p ++ names)) (hne : names ≠ [])
    (hpath : t.locate path = .ok p) :
    t.locate (Glob.childPath path (['/'].intercalate names)) = .ok (p ++ names) := by
  have hnames : ∀ s ∈ names, IsChildName s ∧ '/' ∉ s :=
    fun s hs => h.names s (List.mem_append_right _ hs)
  obtain ⟨hnil, habs⟩ := intercalate_names hne hnames
  rw [FileTree.locate_childPath hpath hnil habs,
    segments_intercalate (fun s hs => (hnames s hs).2) hne]
  exact h.follow

end Names

/-- A name alone leads to what has it in the working directory. -/
theorem locate_name_eq_ok_iff {name : Text} {p : Place} (h : IsChildName name)
    (hslash : '/' ∉ name) :
    t.locate name = .ok p ↔ p = t.here ++ [name] ∧ (t.at? (t.here ++ [name])).isSome := by
  have hne : name ≠ [] := fun hnil => h.not_idle (Or.inl hnil)
  rw [locate_eq_ok_iff, start_relative (isAbsolute_of_not_mem hslash),
    segments_of_not_mem hslash]
  constructor
  · rintro ⟨-, hfollow⟩
    obtain ⟨q, hq, hp⟩ := follow_cons_eq_ok_iff.1 hfollow
    obtain rfl := follow_nil_eq_ok_iff.1 hp
    cases hq with
    | idle _ hidle => exact absurd hidle h.not_idle
    | back _ hparent => exact absurd hparent h.ne_parent
    | enter _ _ there => exact ⟨rfl, there⟩
  · rintro ⟨rfl, there⟩
    exact ⟨hne, follow_cons_eq_ok_iff.2 ⟨_, .enter t.at?_here h there, rfl⟩⟩

/-- Nothing lies inside of what is no directory. -/
theorem not_locate_childPath {path name : Text} {p q : Place} (h : t.locate path = .ok p)
    (hp : t.at? p ≠ some .directory) (hname : isAbsolute name = false) :
    t.locate (Glob.childPath path name) ≠ .ok q := by
  intro hq
  rw [Glob.childPath] at hq
  split_ifs at hq with hcurrent
  · obtain rfl : p = t.here := Except.ok.inj (h.symm.trans (locate_of_isCurrent hcurrent))
    exact hp t.at?_here
  · rw [FileTree.locate_join h hname] at hq
    obtain ⟨s, ss, hs⟩ := List.exists_cons_of_ne_nil (segments_ne_nil name)
    rw [hs] at hq
    obtain ⟨r, hr, -⟩ := follow_cons_eq_ok_iff.1 hq
    exact hp hr.directory

end FileTree

end TemplateCatalog
