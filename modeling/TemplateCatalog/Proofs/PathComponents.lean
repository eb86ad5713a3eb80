/-
Paths by their segments and components.

A path is cut at its separators into segments (`segments_append`, `segments_intercalate`). Only
what stands in front of it can be the root or `.` (`components_eq`). A path that is made longer
has the components of the old path in front (`components_join`), so a path starts with another
if it goes on from it. What is a name among the components is the name of a file in some
directory (`isValid_of_mem_components`).
-/
import TemplateCatalog.Files.Path
import Mathlib.Data.List.Infix

namespace TemplateCatalog

namespace Path

/-! ### Segments -/

theorem segments_ne_nil (p : Text) : segments p ≠ [] := by
  cases p with
  | nil => exact List.cons_ne_nil _ _
  | cons c r =>
    rw [segments]
    split
    · exact List.cons_ne_nil _ _
    · split <;> exact List.cons_ne_nil _ _

theorem segments_eq_splitOn (p : Text) : segments p = p.splitOn '/' := by
  induction p with
  | nil => rfl
  | cons c r ih =>
    rw [segments, List.splitOn, List.splitOnP_cons_eq_if_modifyHead]
    by_cases hc : c = '/'
    · simp only [hc, if_true, beq_self_eq_true, ih, List.splitOn]
    · rw [if_neg hc, if_neg (by simpa using hc), ← List.splitOn, ← ih]
      cases hs : segments r with
      | nil => exact absurd hs (segments_ne_nil r)
      | cons s ss => rfl

theorem segments_append (p q : Text) :
    segments (p ++ '/' :: q) = segments p ++ segments q := by
  simp only [segments_eq_splitOn, List.splitOn_append_cons_self]

theorem segments_of_not_mem {s : Text} (h : '/' ∉ s) : segments s = [s] := by
  rw [segments_eq_splitOn, List.splitOn_eq_singleton h]

theorem segments_intercalate {names : List Text} (h : ∀ s ∈ names, '/' ∉ s)
    (hne : names ≠ []) : segments (['/'].intercalate names) = names := by
  rw [segments_eq_splitOn, List.splitOn_intercalate '/' h hne]

theorem not_mem_of_mem_segments {p s : Text} (h : s ∈ segments p) : '/' ∉ s := by
  induction p generalizing s with
  | nil =>
    rw [List.mem_singleton.1 h]
    exact List.not_mem_nil
  | cons c r ih =>
    rw [segments] at h
    split at h
    · rcases List.mem_cons.1 h with rfl | h
      · exact List.not_mem_nil
      · exact ih h
    · rename_i hc
      split at h
      · rw [List.mem_singleton.1 h, List.mem_singleton]
        exact Ne.symm hc
      · rename_i s' ss hs
        rcases List.mem_cons.1 h with rfl | h
        · rw [List.mem_cons, not_or]
          exact ⟨Ne.symm hc, ih (hs ▸ List.mem_cons_self)⟩
        · exact ih (hs ▸ List.mem_cons_of_mem _ h)

theorem mem_of_mem_segments {p s : Text} {c : Char} (hs : s ∈ segments p) (hc : c ∈ s) :
    c ∈ p := by
  fun_induction segments p generalizing s with
  | case1 =>
    rw [List.mem_singleton.1 hs] at hc
    cases hc
  | case2 r ih =>
    rcases List.mem_cons.1 hs with rfl | hs
    · cases hc
    · exact List.mem_cons_of_mem _ (ih hs hc)
  | case3 d r _ hnil => exact absurd hnil (segments_ne_nil r)
  | case4 d r _ t ts hsegments ih =>
    rcases List.mem_cons.1 hs with rfl | hs
    · rcases List.mem_cons.1 hc with rfl | hc
      · exact List.mem_cons_self
      · exact List.mem_cons_of_mem _ (ih (hsegments ▸ List.mem_cons_self) hc)
    · exact List.mem_cons_of_mem _ (ih (hsegments ▸ List.mem_cons_of_mem _ hs) hc)

theorem isAbsolute_of_not_mem {s : Text} (h : '/' ∉ s) : isAbsolute s = false := by
  cases s with
  | nil => rfl
  | cons c r =>
    have hc : '/' ≠ c := fun hc => h (hc ▸ List.mem_cons_self)
    simpa [isAbsolute] using hc.symm

theorem exists_eq_cons_of_isAbsolute {p : Text} (h : isAbsolute p = true) :
    ∃ r, p = '/' :: r :=
  List.head?_eq_some_iff.1 (by simpa [isAbsolute] using h)

theorem isAbsolute_append {p : Text} (hne : p ≠ []) (q : Text) :
    isAbsolute (p ++ q) = isAbsolute p := by
  cases p with
  | nil => exact absurd rfl hne
  | cons c r => rfl

/-- A segment that means nothing: an empty one, or `.`. -/
def IsIdle (s : Text) : Prop := s = [] ∨ s = ['.']

/-- A segment that names what lies in a directory. -/
structure IsChildName (s : Text) : Prop where
  not_idle : ¬IsIdle s
  ne_parent : s ≠ ['.', '.']

theorem ofSegment_ne_current (s : Text) : ofSegment s ≠ some .current := by
  rw [ofSegment]
  split_ifs <;> simp

theorem ofSegment_ne_root (s : Text) : ofSegment s ≠ some .root := by
  rw [ofSegment]
  split_ifs <;> simp

/-- A path that names the working directory has idle segments only. -/
theorem idle_of_isCurrent {p : Text} (h : isCurrent p = true) :
    p ≠ [] ∧ isAbsolute p = false ∧ ∀ s ∈ segments p, IsIdle s := by
  have hc : components p = [.current] := by simpa [isCurrent] using h
  simp only [components] at hc
  split_ifs at hc with ha hs
  · simp at hc
  · refine ⟨?_, by simpa using ha, fun s hmem => ?_⟩
    · rintro rfl
      simp [segments] at hs
    · have hnone := List.filterMap_eq_nil_iff.1 (List.cons.inj hc).2 s hmem
      rw [ofSegment] at hnone
      split_ifs at hnone with hidle
      exact hidle
  · -- A segment never is the component `.`; it comes from the front of the path only.
    have hmem : Component.current ∈ (segments p).filterMap ofSegment := by simp [hc]
    obtain ⟨s, -, hs⟩ := List.mem_filterMap.1 hmem
    exact absurd hs (ofSegment_ne_current s)

/-! ### What stands in front -/

/-- What stands in front of the components that the segments of a path name. -/
def front (p : Text) : List Component :=
  if isAbsolute p then [.root] else if (segments p).head? == some ['.'] then [.current] else []

theorem components_eq (p : Text) :
    components p = front p ++ (segments p).filterMap ofSegment := by
  simp only [components, front]
  split_ifs <;> rfl

theorem current_not_mem_segments (p : Text) : .current ∉ (segments p).filterMap ofSegment := by
  rw [List.mem_filterMap]
  rintro ⟨s, -, hs⟩
  exact ofSegment_ne_current s hs

theorem root_not_mem_segments (p : Text) : .root ∉ (segments p).filterMap ofSegment := by
  rw [List.mem_filterMap]
  rintro ⟨s, -, hs⟩
  exact ofSegment_ne_root s hs

theorem filter_segments (p : Text) :
    ((segments p).filterMap ofSegment).filter (· ≠ .current) =
      (segments p).filterMap ofSegment := by
  refine List.filter_eq_self.2 fun c hc => ?_
  rw [decide_eq_true_eq]
  rintro rfl
  exact current_not_mem_segments p hc

theorem root_mem_components_iff {p : Text} : .root ∈ components p ↔ isAbsolute p = true := by
  rw [components_eq, List.mem_append, or_iff_left (root_not_mem_segments p), front]
  split_ifs with habs
  · exact iff_of_true List.mem_cons_self habs
  · exact iff_of_false (by simp) habs
  · exact iff_of_false List.not_mem_nil habs

/-! ### Longer paths -/

theorem front_append {p : Text} (hne : p ≠ []) (q : Text) :
    front (p ++ '/' :: q) = front p := by
  rw [front, front, isAbsolute_append hne, segments_append,
    List.head?_append_of_ne_nil _ (segments_ne_nil p)]

theorem components_append {p : Text} (hne : p ≠ []) (q : Text) :
    components (p ++ '/' :: q) = components p ++ (segments q).filterMap ofSegment := by
  rw [components_eq, components_eq, front_append hne, segments_append, List.filterMap_append,
    List.append_assoc]

theorem components_append_slash {p : Text} (hne : p ≠ []) :
    components (p ++ ['/']) = components p := by
  rw [components_append hne]
  exact List.append_nil _

/-- A relative path is joined to another behind a separator. -/
theorem join_eq_append {p : Text} (hne : p ≠ []) (habs : p ≠ ['/']) :
    ∃ p', p' ≠ [] ∧ components p' = components p ∧ (p = p' ∨ p = p' ++ ['/']) ∧
      ∀ q, isAbsolute q = false → join p q = p' ++ '/' :: q := by
  by_cases hlast : p.getLast? = some '/'
  · obtain ⟨p', rfl⟩ := List.getLast?_eq_some_iff.1 hlast
    have hne' : p' ≠ [] := by
      rintro rfl
      exact habs rfl
    refine ⟨p', hne', (components_append_slash hne').symm, Or.inr rfl, fun q hq => ?_⟩
    rw [join, hq, if_neg Bool.false_ne_true, if_pos (by simp), List.append_assoc,
      List.singleton_append]
  · refine ⟨p, hne, rfl, Or.inl rfl, fun q hq => ?_⟩
    rw [join, hq, if_neg Bool.false_ne_true, if_neg (by simp [hne, hlast])]

/-- A path that is joined to another has the components of that one in front. -/
theorem components_join {p q : Text} (hne : p ≠ []) (hq : isAbsolute q = false) :
    components (join p q) = components p ++ (segments q).filterMap ofSegment := by
  by_cases hslash : p = ['/']
  · subst hslash
    have hjoin : join ['/'] q = '/' :: q := by
      rw [join, hq]
      rfl
    rw [hjoin, components_eq]
    rfl
  · obtain ⟨p', hne', hp', -, hjoin⟩ := join_eq_append hne hslash
    rw [hjoin q hq, components_append hne', hp']

/-- Only the root of the file system is written with an empty segment in front. -/
theorem head_segments_ne_nil {p s : Text} {ss : List Text} (hne : p ≠ [])
    (habs : isAbsolute p = false) (h : segments p = s :: ss) : s ≠ [] := by
  obtain ⟨c, r, rfl⟩ := List.exists_cons_of_ne_nil hne
  have hc : c ≠ '/' := by simpa [isAbsolute] using habs
  rintro rfl
  rw [segments, if_neg hc] at h
  split at h <;> cases h

/-- Every path that is not empty has a component: its first segment, or what stands in
front. -/
theorem components_ne_nil {p : Text} (hne : p ≠ []) : components p ≠ [] := by
  obtain ⟨s, ss, hsegments⟩ := List.exists_cons_of_ne_nil (segments_ne_nil p)
  intro hnil
  rw [components_eq, List.append_eq_nil_iff, front, hsegments] at hnil
  obtain ⟨hfront, hrest⟩ := hnil
  split_ifs at hfront with habs hcurrent
  have hs : ofSegment s = none := List.filterMap_eq_nil_iff.1 hrest s List.mem_cons_self
  rw [ofSegment] at hs
  split_ifs at hs with hidle
  rcases hidle with hs | hs
  · exact head_segments_ne_nil hne (Bool.eq_false_iff.2 habs) hsegments hs
  · exact hcurrent (by simp [hs])

theorem startsWith_iff {p q : Text} : startsWith p q = true ↔ components q <+: components p :=
  List.isPrefixOf_iff_prefix

/-! ### Names -/

/-- A component as paths have it: a name is the name of something in a directory. -/
def IsValid : Component → Prop
  | .name s => IsChildName s ∧ '/' ∉ s
  | _ => True

theorem ofSegment_childName {s : Text} (h : IsChildName s) : ofSegment s = some (.name s) := by
  rw [ofSegment]
  exact (if_neg h.not_idle).trans (if_neg h.ne_parent)

theorem filterMap_ofSegment_names {names : List Text} (h : ∀ s ∈ names, IsChildName s) :
    names.filterMap ofSegment = names.map .name := by
  rw [← List.filterMap_eq_map]
  exact List.filterMap_congr fun s hs => ofSegment_childName (h s hs)

theorem isValid_of_ofSegment {s : Text} {c : Component} (h : ofSegment s = some c)
    (hs : '/' ∉ s) : IsValid c := by
  rw [ofSegment] at h
  split_ifs at h with hidle hparent
  · cases h
    trivial
  · cases h
    exact ⟨⟨hidle, hparent⟩, hs⟩

theorem isValid_of_mem_components {p : Text} {c : Component} (h : c ∈ components p) :
    IsValid c := by
  rw [components_eq, List.mem_append] at h
  rcases h with h | h
  · rw [front] at h
    split_ifs at h
    · rw [List.mem_singleton.1 h]
      trivial
    · rw [List.mem_singleton.1 h]
      trivial
    · cases h
  · obtain ⟨s, hs, hc⟩ := List.mem_filterMap.1 h
    exact isValid_of_ofSegment hc (not_mem_of_mem_segments hs)

end Path

end TemplateCatalog
