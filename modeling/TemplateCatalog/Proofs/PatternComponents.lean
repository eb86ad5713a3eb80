/-
The components of patterns.

A pattern is written below a base directory by joining the two texts. If nothing in the text of
the base is a wildcard, the pattern is read there as it is by itself, with the segments of the
base in front (`readComponents_append`), and these lead from the root or from the working
directory to the base (`exists_base`). So what a pattern below such a base stands for is what
its own components lead to from there.

Components can lead back out of the directory that they start from, `..` and what is compared
with it (`Glob.climbs`).
-/
import TemplateCatalog.Proofs.Expansion
import TemplateCatalog.Proofs.Lists
import TemplateCatalog.Proofs.PathComponents
import TemplateCatalog.Proofs.Writing

namespace TemplateCatalog

namespace Glob

open TemplateCatalog.Path

/-! ### Plain texts -/

/-- A text in which every character stands for itself. -/
def IsPlain (s : Text) : Prop := ∀ c ∈ s, c ∉ ['*', '?', '[']

instance (s : Text) : Decidable (IsPlain s) := List.decidableBAll (· ∉ ['*', '?', '[']) s

/-- The pattern of a plain text. -/
def plainPattern (s : Text) : Pattern := ⟨s, s.map .char⟩

theorem isLiteral_plainPattern (s : Text) : (plainPattern s).isLiteral = true := by
  simp [plainPattern, Pattern.isLiteral, Part.isChar]

theorem readParts_cons {c : Char} (hc : c ∉ ['*', '?', '[']) (index : Nat) (boundary : Bool)
    (r : Text) :
    readParts index boundary (c :: r) =
      (readParts (index + 1) (c == '/') r).map (.char c :: ·) := by
  simp only [List.mem_cons, List.not_mem_nil, or_false, not_or] at hc
  rw [readParts.eq_def]
  exact (if_neg hc.2.1).trans ((if_neg hc.2.2).trans (if_neg hc.1))

theorem readParts_plain {s : Text} (hs : IsPlain s) (index : Nat) (boundary : Bool) :
    readParts index boundary s = .ok (s.map .char) := by
  induction s generalizing index boundary with
  | nil => rw [readParts]; rfl
  | cons c r ih =>
    obtain ⟨hc, hr⟩ := List.forall_mem_cons.1 hs
    rw [readParts_cons hc, ih hr]
    rfl

theorem parse_plain {s : Text} (hs : IsPlain s) : Pattern.parse s = .ok (plainPattern s) := by
  rw [Pattern.parse, readParts_plain hs]
  rfl

/-- Behind a plain text and a separator a pattern is read as one that starts there. -/
theorem readParts_append {s : Text} (hs : IsPlain s) (index : Nat) (boundary : Bool)
    (e : Text) : readParts index boundary (s ++ '/' :: e) =
      (readParts (index + s.length + 1) true e).map ((s ++ ['/']).map .char ++ ·) := by
  induction s generalizing index boundary with
  | nil => exact readParts_cons (by decide) index boundary e
  | cons c r ih =>
    obtain ⟨hc, hr⟩ := List.forall_mem_cons.1 hs
    rw [List.cons_append, readParts_cons hc, ih hr, except_map_map, List.length_cons]
    have hindex : index + 1 + r.length + 1 = index + (r.length + 1) + 1 := by omega
    rw [hindex]
    rfl

/-- Where a pattern stands makes a difference for its errors only. -/
theorem readParts_toOption (i j : Nat) (boundary : Bool) (s : Text) :
    (readParts i boundary s).toOption = (readParts j boundary s).toOption := by
  fun_induction readParts i boundary s generalizing j
  all_goals conv_rhs => rw [readParts.eq_def]
  case case2 ih => simp only [if_true, toOption_map, ih (j + 1)]
  case case3 hnone h =>
    dsimp only
    rw [if_neg h, if_pos rfl]
    split
    · rfl
    · rename_i hsome
      cases hnone.symm.trans hsome
  case case4 r part rest hclass h ih =>
    dsimp only
    rw [if_neg h, if_pos rfl]
    split
    · rename_i hnone
      cases hnone.symm.trans hclass
    · rename_i hsome
      cases hsome.symm.trans hclass
      rw [toOption_map, toOption_map, ih]
  case case7 ih => simp [toOption_map, ih (j + 3)]
  case case10 ih => simp [toOption_map, ih (j + 1)]
  case case11 h h' h'' ih => simp only [h, h', h'', if_false, toOption_map, ih (j + 1)]
  -- What is left is the end of the pattern and what is wrong with a run of `*`.
  all_goals simp_all [Except.toOption]

theorem parse_toOption_append {s : Text} (hs : IsPlain s) (e : Text) :
    (Pattern.parse (s ++ '/' :: e)).toOption.isSome = (Pattern.parse e).toOption.isSome := by
  rw [Pattern.parse, Pattern.parse, readParts_append hs]
  simp only [toOption_map, Option.isSome_map]
  rw [readParts_toOption _ 0]

/-! ### The components of a pattern -/

theorem splitComponents_append (s e : Text) :
    splitComponents (s ++ '/' :: e) = segments s ++ splitComponents e := by
  have hne := segments_ne_nil e
  simp only [splitComponents, segments_append, List.getLast?_append_of_ne_nil _ hne,
    List.dropLast_append_of_ne_nil hne]
  split_ifs <;> rfl

theorem source_of_parse {s : Text} {p : Pattern} (h : Pattern.parse s = .ok p) :
    p.source = s := by
  rw [Pattern.parse] at h
  cases hr : readParts 0 true s with
  | error e =>
    rw [hr] at h
    cases h
  | ok parts =>
    rw [hr] at h
    cases h
    rfl

/-- Below a plain base a pattern has the segments of the base and then its own components. -/
theorem readComponents_append {s e : Text} (hs : IsPlain s) {ps : List Pattern} :
    readComponents (s ++ '/' :: e) = .ok ps ↔
      ∃ qs, readComponents e = .ok qs ∧ ps = (segments s).map plainPattern ++ qs := by
  have hsegments : (segments s).mapM Pattern.parse = .ok ((segments s).map plainPattern) :=
    mapM_eq_ok_map fun p hp => parse_plain fun c hc => hs c (mem_of_mem_segments hp hc)
  have hparse := parse_toOption_append hs e
  rw [readComponents, readComponents, splitComponents_append, List.mapM_append, hsegments]
  cases hwhole : Pattern.parse (s ++ '/' :: e) with
  | error =>
    cases he : Pattern.parse e with
    | error => simp
    | ok => simp [hwhole, he, Except.toOption] at hparse
  | ok =>
    cases he : Pattern.parse e with
    | error => simp [hwhole, he, Except.toOption] at hparse
    | ok =>
      cases hrest : (splitComponents e).mapM Pattern.parse with
      | error => simp [bind, Except.bind]
      | ok qs => simp [bind, Except.bind, pure, Except.pure, eq_comm]

/-- The components of a pattern are read each by itself. -/
theorem parse_of_mem_readComponents {e : Text} {ps : List Pattern} {p : Pattern}
    (h : readComponents e = .ok ps) (hp : p ∈ ps) : Pattern.parse p.source = .ok p ∧
      '/' ∉ p.source := by
  rw [readComponents] at h
  split at h
  · cases h
  · obtain ⟨s, hs, hparse⟩ := exists_of_mem_mapM h hp
    rw [source_of_parse hparse]
    refine ⟨hparse, not_mem_of_mem_segments (p := e) ?_⟩
    rw [splitComponents] at hs
    split_ifs at hs
    · exact List.mem_of_mem_dropLast hs
    · exact hs

/-! ### Following components -/

/-- What holds of all components holds of those behind a run of `**`. -/
theorem forall_of_dropWhile_eq {P : Pattern → Prop} {p : Pattern} {ps qs : List Pattern}
    (h : ps.dropWhile Pattern.isDirectories = p :: qs) (hps : ∀ c ∈ ps, P c) : ∀ c ∈ qs,
    P c := by
  have hsuffix : p :: qs <:+ ps := h ▸ List.dropWhile_suffix _
  exact fun c hc => hps c (hsuffix.subset (List.mem_cons_of_mem _ hc))

theorem expands_literal_iff {tree : FileTree} {directoryOnly : Bool} {p : Pattern}
    {ps : List Pattern} {path z : Text} (hp : p.isLiteral = true) :
    Expands tree directoryOnly (p :: ps) path z ↔
      LeadsOn tree path p.source ∧
        Expands tree directoryOnly ps (childPath path p.source) z := by
  constructor
  · intro h
    cases h with
    | literal _ hon hz => exact ⟨hon, hz⟩
    | directories hlit | deep hlit | name hlit | dots hlit => rw [hp] at hlit; cases hlit
  · rintro ⟨hon, hz⟩
    exact .literal hp hon hz

theorem childPath_eq_join {path : Text} (h : (components path).head? ≠ some .current)
    (name : Text) : childPath path name = join path name := by
  have hcurrent : isCurrent path = false := by
    rw [isCurrent, beq_eq_false_iff_ne]
    intro heq
    exact h (heq ▸ rfl)
  rw [childPath, hcurrent, if_neg Bool.false_ne_true]

/-- A segment leads on in a pattern as it does in a path. -/
theorem leadsOn_of_steps {t : FileTree} {path s : Text} {p q : Place}
    (hpath : t.locate path = .ok p) (hslash : '/' ∉ s)
    (hchild : childPath path s = join path s) (h : t.Steps p s q) : LeadsOn t path s := by
  by_cases hdots : s = ['.'] ∨ s = ['.', '.']
  · exact Or.inl ⟨hdots, FileTree.isDirectory_iff.2 ⟨p, hpath, h.directory⟩⟩
  · refine Or.inr ⟨hdots, FileTree.existsAt_iff.2 ⟨q, ?_, ?_⟩⟩
    · rw [hchild, FileTree.locate_join hpath (isAbsolute_of_not_mem hslash),
        segments_of_not_mem hslash]
      exact FileTree.follow_cons_eq_ok_iff.2 ⟨q, h, rfl⟩
    · cases h with
      | idle hp => exact hp ▸ rfl
      | back _ hs => exact absurd (Or.inr hs) hdots
      | enter _ _ there => exact there

/-- Segments lead on one after the other, to a path with their components behind those of the
first. -/
theorem exists_expands_iff {t : FileTree} {ss : List Text} {path : Text} {p q : Place}
    (hpath : t.locate path = .ok p) (hfollow : t.follow p ss = .ok q) (hss : ∀ s ∈ ss, '/' ∉ s)
    (hhead : (components path).head? ≠ some .current) :
    ∃ base, t.locate base = .ok q ∧ components base = components path ++
      ss.filterMap ofSegment ∧
      ∀ {directoryOnly ps z}, Expands t directoryOnly (ss.map plainPattern ++ ps) path z ↔
        Expands t directoryOnly ps base z := by
  induction ss generalizing path p with
  | nil =>
    obtain rfl := FileTree.follow_nil_eq_ok_iff.1 hfollow
    exact ⟨path, hpath, (List.append_nil _).symm, Iff.rfl⟩
  | cons s ss ih =>
    obtain ⟨hs, hss⟩ := List.forall_mem_cons.1 hss
    obtain ⟨r, hr, hfollow⟩ := FileTree.follow_cons_eq_ok_iff.1 hfollow
    have hne := (FileTree.locate_eq_ok_iff.1 hpath).1
    have hchild := childPath_eq_join hhead s
    have hnext : t.locate (join path s) = .ok r := by
      rw [FileTree.locate_join hpath (isAbsolute_of_not_mem hs), segments_of_not_mem hs]
      exact FileTree.follow_cons_eq_ok_iff.2 ⟨r, hr, rfl⟩
    have hcomponents :
        components (join path s) = components path ++ [s].filterMap ofSegment := by
      rw [components_join hne (isAbsolute_of_not_mem hs), segments_of_not_mem hs]
    have hhead' : (components (join path s)).head? ≠ some .current := by
      rwa [hcomponents, List.head?_append_of_ne_nil _ (components_ne_nil hne)]
    -- The path with this segment is no `.` either, so the other segments go on from it.
    obtain ⟨base, hbase, hcomp, hiff⟩ := ih hnext hfollow hss hhead'
    refine ⟨base, hbase, ?_, fun {_ _ _} => ?_⟩
    · rw [hcomp, hcomponents, List.append_assoc, ← List.filterMap_append,
        List.singleton_append]
    · rw [List.map_cons, List.cons_append, expands_literal_iff (isLiteral_plainPattern s),
        ← hiff]
      have hon := leadsOn_of_steps hpath hs hchild hr
      exact ⟨fun h => hchild ▸ h.2, fun h => ⟨hon, hchild.symm ▸ h⟩⟩

/-! ### From the root of the file system -/

/-- Separators alone stand for the root. -/
theorem locate_separators {t : FileTree} {o : Text} (hne : o ≠ []) (ho : ∀ c ∈ o, c = '/') :
    t.locate o = .ok [] ∧ components o = [.root] := by
  have habs : isAbsolute o = true := by
    obtain ⟨c, r, rfl⟩ := List.exists_cons_of_ne_nil hne
    simp [isAbsolute, ho c List.mem_cons_self]
  have hidle : ∀ s ∈ segments o, IsIdle s := fun s hs => by
    refine Or.inl (List.eq_nil_iff_forall_not_mem.2 fun c hc => not_mem_of_mem_segments hs ?_)
    rwa [← ho c (mem_of_mem_segments hs hc)]
  constructor
  · rw [FileTree.locate_eq_ok_iff, FileTree.start_absolute habs]
    exact ⟨hne, FileTree.follow_idle t.at?_nil hidle⟩
  · have hnone : (segments o).filterMap ofSegment = [] :=
      List.filterMap_eq_nil_iff.2 fun s hs => if_pos (hidle s hs)
    rw [components_eq, front, if_pos habs, hnone, List.append_nil]

theorem exists_expandFrom_separators {t : FileTree} {o : Text} {ss : List Text} {p : Place}
    (hne : o ≠ []) (ho : ∀ c ∈ o, c = '/') (hss : ∀ s ∈ ss, '/' ∉ s)
    (h : t.follow [] ss = .ok p) :
    ∃ base, t.locate base = .ok p ∧ components base = .root :: ss.filterMap ofSegment ∧
      ∀ {directoryOnly ps z}, z ∈ expandFrom t directoryOnly (ss.map plainPattern ++ ps) o ↔
        Expands t directoryOnly ps base z := by
  obtain ⟨hlocate, hcomponents⟩ := @locate_separators t o hne ho
  have hhead : (components o).head? ≠ some .current := by
    rw [hcomponents]
    exact nofun
  obtain ⟨base, hbase, hcomp, hiff⟩ := exists_expands_iff hlocate h hss hhead
  rw [hcomponents] at hcomp
  exact ⟨base, hbase, hcomp, fun {_ _ _} => mem_expandFrom_iff.trans hiff⟩

/-- An absolute pattern starts at separators alone. -/
theorem startPath_of_isAbsolute {pattern : Text} (h : isAbsolute pattern = true) :
    startPath pattern ≠ [] ∧ ∀ c ∈ startPath pattern, c = '/' := by
  obtain ⟨r, hr⟩ := exists_eq_cons_of_isAbsolute h
  rw [startPath, if_pos h]
  refine ⟨?_, fun c hc => by simpa using List.mem_takeWhile_imp hc⟩
  rw [hr, List.takeWhile_cons_of_pos (by rfl)]
  exact List.cons_ne_nil _ _

theorem startPath_absolute {s e : Text} (hs : isAbsolute (s ++ ['/']) = true)
    (he : isAbsolute e = false) : startPath (s ++ '/' :: e) = startPath (s ++ ['/']) := by
  have hsplit : s ++ '/' :: e = (s ++ ['/']) ++ e := by simp
  have hstop : ∀ c ∈ e.head?, (c == '/') = false := by
    intro c hc
    rw [isAbsolute, hc] at he
    simpa using he
  rw [startPath, startPath, hsplit,
    isAbsolute_append (List.append_ne_nil_of_right_ne_nil _ (List.cons_ne_nil _ _)), if_pos hs,
    if_pos hs, takeWhile_append_of_stop hstop]

/-- An absolute path without its last separator leads on from the separators in front of it. -/
theorem exists_expandFrom_absolute {t : FileTree} {s : Text} {p : Place}
    (hs : isAbsolute (s ++ ['/']) = true) (h : t.follow [] (segments s) = .ok p) :
    ∃ base, t.locate base = .ok p ∧
      components base = .root :: (segments s).filterMap ofSegment ∧
      ∀ e, isAbsolute e = false → ∀ {directoryOnly ps z},
        z ∈ expandFrom t directoryOnly ((segments s).map plainPattern ++ ps)
          (startPath (s ++ '/' :: e)) ↔
          Expands t directoryOnly ps base z := by
  obtain ⟨hne, hseparators⟩ := startPath_of_isAbsolute hs
  obtain ⟨base, hbase, hcomponents, hiff⟩ :=
    exists_expandFrom_separators hne hseparators (fun _ => not_mem_of_mem_segments) h
  refine ⟨base, hbase, hcomponents, fun e he {_ _ _} => ?_⟩
  rw [startPath_absolute hs he]
  exact hiff

/-! ### From the working directory -/

theorem startPath_relative {s : Text} (hne : s ≠ []) (hs : isAbsolute s = false) (e : Text) :
    startPath (s ++ '/' :: e) = ['.'] := by
  rw [startPath, isAbsolute_append hne, hs, if_neg Bool.false_ne_true]

/-- The components of a relative path without `.` in front are those of its segments. -/
theorem components_of_not_idle {path s : Text} {ss : List Text}
    (habs : isAbsolute path = false) (h : segments path = s :: ss) (hs : ¬IsIdle s) :
    components path = (s :: ss).filterMap ofSegment := by
  have hcurrent : s ≠ ['.'] := fun hs' => hs (Or.inr hs')
  rw [components_eq, front, habs, h, if_neg Bool.false_ne_true,
    if_neg (by simpa using hcurrent), List.nil_append]

theorem leadsOn_current {t : FileTree} {s : Text} {p : Place} (h : t.locate s = .ok p) :
    LeadsOn t ['.'] s := by
  have hcurrent : t.locate ['.'] = .ok t.here := FileTree.locate_of_isCurrent rfl
  by_cases hdots : s = ['.'] ∨ s = ['.', '.']
  · exact Or.inl ⟨hdots, FileTree.isDirectory_iff.2 ⟨_, hcurrent, t.at?_here⟩⟩
  · exact Or.inr ⟨hdots, FileTree.existsAt_iff.2 ⟨p, h, (FileTree.locate_reached h).there⟩⟩

/-- The segments of a relative path lead to it, from the working directory. -/
theorem exists_expandFrom_relative {t : FileTree} {s : Text} {p : Place}
    (h : t.locate s = .ok p) (habs : isAbsolute s = false)
    (hcurrent : .current ∉ components s) :
    ∃ base, t.locate base = .ok p ∧ components base = components s ∧
      ∀ {directoryOnly ps z},
        z ∈ expandFrom t directoryOnly ((segments s).map plainPattern ++ ps) ['.'] ↔
        Expands t directoryOnly ps base z := by
  obtain ⟨hne, hfollow⟩ := FileTree.locate_eq_ok_iff.1 h
  obtain ⟨c, ss, hsegments⟩ := List.exists_cons_of_ne_nil (segments_ne_nil s)
  have hslashes : ∀ s' ∈ c :: ss, '/' ∉ s' := hsegments ▸ fun _ => not_mem_of_mem_segments
  obtain ⟨hslash, hss⟩ := List.forall_mem_cons.1 hslashes
  have hidle : ¬IsIdle c := by
    rintro (rfl | rfl)
    · exact head_segments_ne_nil hne habs hsegments rfl
    · apply hcurrent
      rw [components_eq, front, habs, hsegments]
      exact List.mem_append_left _ List.mem_cons_self
  -- The first segment stands alone, the others behind it.
  rw [FileTree.start_relative habs, hsegments] at hfollow
  obtain ⟨q, hq, hfollow⟩ := FileTree.follow_cons_eq_ok_iff.1 hfollow
  have hcabs := isAbsolute_of_not_mem hslash
  have hc : t.locate c = .ok q := by
    rw [FileTree.locate_eq_ok_iff, FileTree.start_relative hcabs, segments_of_not_mem hslash]
    exact ⟨fun hnil => hidle (Or.inl hnil), FileTree.follow_cons_eq_ok_iff.2 ⟨q, hq, rfl⟩⟩
  have hcomponents := components_of_not_idle hcabs (segments_of_not_mem hslash) hidle
  have hhead : (components c).head? ≠ some .current := fun hhead => by
    rw [hcomponents, ← segments_of_not_mem hslash] at hhead
    exact current_not_mem_segments c (List.mem_of_head? hhead)
  obtain ⟨base, hbase, hcomp, hiff⟩ := exists_expands_iff hc hfollow hss hhead
  refine ⟨base, hbase, ?_, fun {_ _ _} => ?_⟩
  · rw [hcomp, hcomponents, ← List.filterMap_append,
      components_of_not_idle habs hsegments hidle, List.singleton_append]
  · rw [mem_expandFrom_iff, hsegments, List.map_cons, List.cons_append,
      expands_literal_iff (isLiteral_plainPattern c)]
    exact (and_iff_right (leadsOn_current hc)).trans hiff

/-! ### Patterns below a base -/

/-- The segments of a path lead to it, from where a pattern behind it starts. -/
theorem exists_expandFrom_iff {t : FileTree} {s : Text} {p : Place} (h : t.locate s = .ok p)
    (hcurrent : .current ∉ components s) :
    ∃ base, t.locate base = .ok p ∧ components base = components s ∧
      ∀ e, isAbsolute e = false → ∀ {directoryOnly ps z},
        z ∈ expandFrom t directoryOnly ((segments s).map plainPattern ++ ps)
          (startPath (s ++ '/' :: e)) ↔
          Expands t directoryOnly ps base z := by
  obtain ⟨hne, hfollow⟩ := FileTree.locate_eq_ok_iff.1 h
  cases habs : isAbsolute s with
  | true =>
    rw [FileTree.start_absolute habs] at hfollow
    obtain ⟨base, hbase, hcomponents, hiff⟩ :=
      exists_expandFrom_absolute ((isAbsolute_append hne _).trans habs) hfollow
    refine ⟨base, hbase, ?_, hiff⟩
    rw [hcomponents, components_eq, front, if_pos habs, List.singleton_append]
  | false =>
    obtain ⟨base, hbase, hcomponents, hiff⟩ := exists_expandFrom_relative h habs hcurrent
    refine ⟨base, hbase, hcomponents, fun e _ {_ _ _} => ?_⟩
    rw [startPath_relative hne habs]
    exact hiff

/-- Behind a plain text and a separator a pattern stands for what its own components lead
to. -/
theorem mem_expand_append_iff {t : FileTree} {s e base : Text} (hs : IsPlain s) (he : e ≠ [])
    (hiff : ∀ {directoryOnly ps z},
      z ∈ expandFrom t directoryOnly ((segments s).map plainPattern ++ ps)
        (startPath (s ++ '/' :: e)) ↔
        Expands t directoryOnly ps base z) (z : Text) :
    (∃ us, expand t (s ++ '/' :: e) = .ok us ∧ z ∈ us) ↔
      ∃ ps, readComponents e = .ok ps ∧ Expands t (e.getLast? == some '/') ps base z := by
  have hlast : (s ++ '/' :: e).getLast? = e.getLast? := by
    rw [List.getLast?_append_of_ne_nil _ (List.cons_ne_nil _ _),
      List.getLast?_cons_of_ne_nil he]
  -- What asks for directories only is the end of the pattern, which is that of `e`.
  rw [expand, hlast]
  constructor
  · rintro ⟨us, hus, hz⟩
    cases hread : readComponents (s ++ '/' :: e) with
    | error =>
      rw [hread] at hus
      cases hus
    | ok comps =>
      rw [hread] at hus
      cases hus
      obtain ⟨ps, hps, rfl⟩ := (readComponents_append hs).1 hread
      exact ⟨ps, hps, hiff.1 hz⟩
  · rintro ⟨ps, hps, hz⟩
    rw [(readComponents_append hs).2 ⟨ps, hps, rfl⟩]
    exact ⟨_, rfl, hiff.2 hz⟩

/-- What a pattern below a plain base stands for is what its own components lead to from
there. -/
theorem exists_base {t : FileTree} {path : Text} {p : Place} (h : t.locate path = .ok p)
    (hplain : IsPlain path) (hcurrent : .current ∉ components path) :
    ∃ base, t.locate base = .ok p ∧ components base = components path ∧
      ∀ e z, e ≠ [] → isAbsolute e = false →
        ((∃ us, expand t (join path e) = .ok us ∧ z ∈ us) ↔
          ∃ ps, readComponents e = .ok ps ∧ Expands t (e.getLast? == some '/') ps base z) := by
  by_cases hroot : path = ['/']
  · subst hroot
    -- Behind the root the separator is already there: the base without it is empty.
    obtain rfl := Except.ok.inj (h.symm.trans t.locate_root)
    have hfollow : t.follow [] (segments []) = .ok [] :=
      FileTree.follow_idle t.at?_nil fun s hs => Or.inl (List.mem_singleton.1 hs)
    obtain ⟨base, hbase, hcomponents, hiff⟩ := @exists_expandFrom_absolute t [] [] rfl hfollow
    refine ⟨base, hbase, hcomponents, fun e z he habs => ?_⟩
    have hjoin : join ['/'] e = [] ++ '/' :: e := by
      rw [join, habs]
      rfl
    rw [hjoin]
    exact mem_expand_append_iff (List.forall_mem_nil _) he (hiff e habs) z
  · -- The path without the separator that it may end in.
    obtain ⟨s, hsne, hcomponents, hs, hjoin⟩ :=
      join_eq_append (FileTree.locate_eq_ok_iff.1 h).1 hroot
    have hlocate : t.locate s = .ok p := by
      rcases hs with rfl | rfl
      · exact h
      · exact FileTree.locate_of_append_slash hsne h
    have hsplain : IsPlain s := by
      rcases hs with rfl | rfl
      · exact hplain
      · exact fun c hc => hplain c (List.mem_append_left _ hc)
    obtain ⟨base, hbase, hbasecomponents, hiff⟩ :=
      exists_expandFrom_iff hlocate (hcomponents ▸ hcurrent)
    refine ⟨base, hbase, hbasecomponents.trans hcomponents, fun e z he habs => ?_⟩
    rw [hjoin e habs]
    exact mem_expand_append_iff hsplain he (hiff e habs) z

/-! ### Climbing out -/

/-- Can the component stand for `.` or `..`? -/
def Pattern.leadsUp (p : Pattern) : Bool :=
  p.startsWithPoint && [['.'], ['.', '.']].any p.matches?

/-- Can the components lead out of the directory `depth` levels above the one they start
from? -/
def climbs (depth : Nat) : List Pattern → Bool
  | [] => false
  | p :: ps =>
    if p.source = [] ∨ p.source = ['.'] ∨ p.isDirectories then climbs depth ps
    else if p.leadsUp then depth == 0 || climbs (depth - 1) ps
    else climbs (depth + 1) ps

theorem climbs_mono {ps : List Pattern} {d d' : Nat} (h : climbs d ps = false) (hd : d ≤ d') :
    climbs d' ps = false := by
  induction ps generalizing d d' with
  | nil => rfl
  | cons p ps ih =>
    rw [climbs] at h ⊢
    split_ifs at h ⊢
    · exact ih h hd
    · rw [Bool.or_eq_false_iff, beq_eq_false_iff_ne] at h ⊢
      exact ⟨by omega, ih h.2 (by omega)⟩
    · exact ih h (by omega)

/-- One level further down the components that are left do not climb out either. -/
theorem climbs_tail {p : Pattern} {ps : List Pattern} {d : Nat}
    (h : climbs d (p :: ps) = false) : climbs (d + 1) ps = false := by
  rw [climbs] at h
  split_ifs at h
  · exact climbs_mono h (by omega)
  · exact climbs_mono (Bool.or_eq_false_iff.1 h).2 (by omega)
  · exact h

theorem climbs_idle {p : Pattern} (hp : IsIdle p.source) (d : Nat) (ps : List Pattern) :
    climbs d (p :: ps) = climbs d ps := by
  rw [climbs, if_pos]
  exact hp.elim Or.inl fun h => Or.inr (Or.inl h)

theorem climbs_dropWhile (d : Nat) (ps : List Pattern) :
    climbs d (ps.dropWhile Pattern.isDirectories) = climbs d ps := by
  induction ps with
  | nil => rfl
  | cons p ps ih =>
    cases hp : p.isDirectories with
    | true => rw [List.dropWhile_cons_of_pos hp, ih, climbs, if_pos (Or.inr (Or.inr hp))]
    | false => rw [List.dropWhile_cons_of_neg (by simp [hp])]

theorem climbs_leadsUp {p : Pattern} {ps : List Pattern} {d : Nat} (hidle : ¬IsIdle p.source)
    (hdirs : p.isDirectories = false) (hp : p.leadsUp = true)
    (h : climbs d (p :: ps) = false) : d ≠ 0 ∧ climbs (d - 1) ps = false := by
  have hbranch : ¬(p.source = [] ∨ p.source = ['.'] ∨ p.isDirectories = true) := by
    rintro (h | h | h)
    · exact hidle (Or.inl h)
    · exact hidle (Or.inr h)
    · rw [hdirs] at h
      cases h
  rw [climbs, if_neg hbranch, if_pos hp, Bool.or_eq_false_iff, beq_eq_false_iff_ne] at h
  exact h

/-- The path back is written without wildcards, or compared with. -/
theorem leadsUp_back {p : Pattern} (hp : Pattern.parse p.source = .ok p)
    (hback : p.source = ['.', '.']) : p.isDirectories = false ∧ p.leadsUp = true := by
  rw [hback, parse_plain (by decide)] at hp
  obtain rfl := Except.ok.inj hp
  decide

theorem not_isIdle_of_not_isLiteral {p : Pattern} (hp : Pattern.parse p.source = .ok p)
    (hlit : p.isLiteral = false) : ¬IsIdle p.source := by
  intro hidle
  have hplain : IsPlain p.source := by
    rcases hidle with h | h <;> rw [h] <;> decide
  rw [parse_plain hplain] at hp
  rw [← Except.ok.inj hp, isLiteral_plainPattern] at hlit
  cases hlit

theorem climbs_back {p : Pattern} {ps : List Pattern} {d : Nat}
    (hp : Pattern.parse p.source = .ok p) (h : climbs d (p :: ps) = false)
    (hback : p.source = ['.', '.']) : d ≠ 0 ∧ climbs (d - 1) ps = false := by
  obtain ⟨hdirs, hup⟩ := leadsUp_back hp hback
  exact climbs_leadsUp (by rw [hback]; simp [IsIdle]) hdirs hup h

/-- Below the directories that `**` stands for, the components that are left do not climb
out. -/
theorem climbs_deep {p p' : Pattern} {ps ps' : List Pattern} {d : Nat}
    (hdirs : p.isDirectories = true) (hps : ps.dropWhile Pattern.isDirectories = p' :: ps')
    (h : climbs d (p :: ps) = false) : climbs (d + 1) ps' = false := by
  rw [climbs, if_pos (Or.inr (Or.inr hdirs)), ← climbs_dropWhile, hps] at h
  exact climbs_tail h

/-- A component that is written as a segment keeps the depth as the segment does. -/
theorem climbs_of_steps {t : FileTree} {p : Pattern} {ps : List Pattern} {q q' : Place}
    (hp : Pattern.parse p.source = .ok p) (h : climbs q.length (p :: ps) = false)
    (hstep : t.Steps q p.source q') : climbs q'.length ps = false := by
  cases hstep with
  | idle _ hidle => rwa [climbs_idle hidle] at h
  | back _ hparent =>
    rw [List.length_dropLast]
    exact (climbs_back hp h hparent).2
  | enter =>
    rw [List.length_append]
    exact climbs_tail h

/-- `.` and `..` lead on from a directory, for a component that is compared with them. -/
theorem exists_steps_of_dots {t : FileTree} {p : Pattern} {ps : List Pattern} {q : Place}
    {n : Text} (hp : Pattern.parse p.source = .ok p) (hlit : p.isLiteral = false)
    (hdirs : p.isDirectories = false) (hpoint : p.startsWithPoint = true)
    (hdots : n = ['.'] ∨ n = ['.', '.']) (hmatch : p.matches? n = true)
    (hdir : t.at? q = some .directory)
    (h : climbs q.length (p :: ps) = false) :
    ∃ q', t.Steps q n q' ∧ (n = ['.', '.'] → q ≠ []) ∧ climbs q'.length ps = false := by
  have hup : p.leadsUp = true := by
    rw [Pattern.leadsUp, hpoint, Bool.true_and, List.any_eq_true]
    exact ⟨n, List.mem_pair.2 hdots, hmatch⟩
  obtain ⟨hne, hback⟩ := climbs_leadsUp (not_isIdle_of_not_isLiteral hp hlit) hdirs hup h
  rcases hdots with rfl | rfl
  · exact ⟨q, .idle hdir (Or.inr rfl), nofun, climbs_mono hback (by omega)⟩
  · refine ⟨q.dropLast, .back hdir rfl, fun _ => List.ne_nil_of_length_pos (by omega), ?_⟩
    rwa [List.length_dropLast]

end Glob

end TemplateCatalog
