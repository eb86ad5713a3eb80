/-
The directories that a path names, from the inside out.

The parent of a path is the path without its last component, and only the empty path and the
root have none (`parent?_cases`). So from any path the parents lead outwards to one of these
two (`isAscent_outwards`).
-/
import TemplateCatalog.Proofs.OriginLabels
import TemplateCatalog.Proofs.Surroundings
import Mathlib.Data.List.TakeWhile

namespace TemplateCatalog

namespace Path

variable {p q : Text}

/-! ### Parents -/

/-- Separators and `.` at the end of a path are no components. The path is given in reverse. -/
theorem components_dropEnd {r : Text} (h : dropEnd r ≠ []) :
    components (dropEnd r).reverse = components r.reverse := by
  fun_induction dropEnd r with
  | case1 r ih =>
    have hne : r.reverse ≠ [] := by
      rw [List.reverse_ne_nil_iff]
      rintro rfl
      exact h rfl
    rw [ih h, List.reverse_cons, components_append_slash hne]
  | case2 r ih =>
    have hne : r.reverse ≠ [] := by
      rw [List.reverse_ne_nil_iff]
      rintro rfl
      exact h rfl
    -- In reverse the `.` comes before the separator that stands in front of it.
    rw [ih h, List.reverse_cons, List.reverse_cons, List.append_assoc, List.singleton_append,
      components_append hne]
    exact (List.append_nil _).symm
  | case3 => rfl

/-- If nothing else is there, the path is empty or the root. -/
theorem components_of_dropEnd_eq_nil {r : Text} (h : dropEnd r = []) :
    components r.reverse = if isAbsolute r.reverse then [.root] else [] := by
  fun_induction dropEnd r with
  | case1 r ih =>
    by_cases hne : r.reverse = []
    · rw [List.reverse_cons, hne]
      rfl
    · rw [List.reverse_cons, components_append_slash hne, isAbsolute_append hne, ih h]
  | case2 r ih =>
    by_cases hne : r.reverse = []
    · rw [List.reverse_cons, List.reverse_cons, hne]
      rfl
    · rw [List.reverse_cons, List.reverse_cons, List.append_assoc, List.singleton_append,
        components_append hne, isAbsolute_append hne, ih h]
      exact List.append_nil _
  | case3 =>
    rw [h]
    rfl

theorem isAbsolute_dropEnd {r : Text} (h : dropEnd r ≠ []) :
    isAbsolute (dropEnd r).reverse = isAbsolute r.reverse := by
  obtain ⟨front, hfront, -⟩ := dropEnd_eq_append r
  have hreverse : r.reverse = (dropEnd r).reverse ++ front.reverse := by
    rw [← List.reverse_append, ← hfront]
  rw [hreverse, isAbsolute_append (List.reverse_ne_nil_iff.2 h)]

theorem dropEnd_ne_dot (s r : Text) : dropEnd s ≠ '.' :: '/' :: r := by
  fun_induction dropEnd s <;> simp_all

/-- What is left of a path, given in reverse, without the idle segments at its end. -/
def upTo (absolute : Bool) (r : Text) : Text :=
  if dropEnd r = [] then if absolute then ['/'] else [] else (dropEnd r).reverse

theorem parent?_eq (p : Text) :
    parent? p = if dropEnd p.reverse = [] then none
      else some (upTo (isAbsolute p) ((dropEnd p.reverse).dropWhile (· != '/'))) := by
  rw [parent?]
  cases dropEnd p.reverse with
  | nil => rfl
  | cons c r =>
    rw [if_neg (List.cons_ne_nil c r), upTo]
    dsimp only
    split
    · rename_i hw
      rw [if_pos hw]
    · rename_i hw
      rw [if_neg hw]

/-- In front of a separator there is the root, or a path that it ends. -/
theorem components_upTo (r : Text) :
    components (upTo (isAbsolute (r.reverse ++ ['/'])) ('/' :: r)) =
      if r = [] then [.root] else components r.reverse := by
  have hdrop : dropEnd ('/' :: r) = dropEnd r := by rw [dropEnd]
  rw [upTo, hdrop]
  by_cases hnil : r = []
  · subst hnil
    rfl
  · rw [if_neg hnil, isAbsolute_append (List.reverse_ne_nil_iff.2 hnil)]
    split_ifs with hr habs
    · rw [components_of_dropEnd_eq_nil hr, if_pos habs]
      rfl
    · rw [components_of_dropEnd_eq_nil hr, if_neg habs]
      rfl
    · exact components_dropEnd hr

/-- A segment that is not idle is a component. -/
theorem exists_ofSegment {s : Text} (h : ¬IsIdle s) :
    ∃ c, c ≠ .root ∧ ofSegment s = some c := by
  rw [IsIdle] at h
  rw [ofSegment, if_neg h]
  split_ifs
  · exact ⟨.parent, Component.noConfusion, rfl⟩
  · exact ⟨.name s, Component.noConfusion, rfl⟩

/-- A path without a separator is one component, also if it is `.`. -/
theorem exists_components_segment {s : Text} (hne : s ≠ []) (hslash : '/' ∉ s) :
    ∃ c, c ≠ .root ∧ components s = [c] := by
  by_cases hdot : s = ['.']
  · exact ⟨.current, Component.noConfusion, by rw [hdot]; rfl⟩
  · obtain ⟨c, hc, hs⟩ := exists_ofSegment (not_or.2 ⟨hne, hdot⟩)
    refine ⟨c, hc, ?_⟩
    rw [components_eq, front, isAbsolute_of_not_mem hslash, segments_of_not_mem hslash]
    simp [hdot, hs]

/-- A segment that is not idle is the last component of the path that it ends. -/
theorem exists_components_append {s : Text} (h : ¬IsIdle s) (hslash : '/' ∉ s) (p : Text) :
    ∃ c, c ≠ .root ∧ components (p ++ '/' :: s) = (if p = [] then [.root] else components p) ++
      [c] := by
  obtain ⟨c, hc, hs⟩ := exists_ofSegment h
  refine ⟨c, hc, ?_⟩
  have hlast : (segments s).filterMap ofSegment = [c] := by
    rw [segments_of_not_mem hslash, List.filterMap_cons_some hs, List.filterMap_nil]
  split_ifs with hnil
  · rw [hnil, components_eq, segments_append, List.filterMap_append, hlast]
    rfl
  · rw [components_append hnil, hlast]

/-- The path `q` is the path `p` without its last component. -/
def IsParent (q p : Text) : Prop :=
  ¬IsBare (components p) ∧ components q = (components p).dropLast

theorem isParent_of_components {c : Component} (hc : c ≠ .root)
    (h : components p = components q ++ [c]) : IsParent q p := by
  refine ⟨?_, by rw [h, List.dropLast_concat]⟩
  rintro (hnil | hroot)
  · rw [hnil] at h
    simp at h
  · rw [hroot] at h
    have hlast := congrArg List.getLast? h
    rw [List.getLast?_concat] at hlast
    exact hc (Option.some.inj hlast).symm

/-- What stands in front of the last component is the parent. -/
theorem isParent_upTo (h : dropEnd p.reverse ≠ []) :
    IsParent (upTo (isAbsolute p) ((dropEnd p.reverse).dropWhile (· != '/'))) p := by
  have hp : components p = components (dropEnd p.reverse).reverse := by
    rw [components_dropEnd h, List.reverse_reverse]
  have habs : isAbsolute p = isAbsolute (dropEnd p.reverse).reverse := by
    rw [isAbsolute_dropEnd h, List.reverse_reverse]
  have hslash := dropEnd_ne_slash p.reverse
  have hdot := dropEnd_ne_dot p.reverse
  generalize dropEnd p.reverse = r at h hp habs hslash hdot
  obtain ⟨s, hs⟩ : ∃ s, s = r.takeWhile (· != '/') := ⟨_, rfl⟩
  have hsegment : '/' ∉ s :=
    fun hmem => absurd (List.mem_takeWhile_imp (hs ▸ hmem)) (by decide)
  have hparts : s ++ r.dropWhile (· != '/') = r := hs ▸ List.takeWhile_append_dropWhile
  have hhead := List.head?_dropWhile_not (· != '/') r
  cases hw : r.dropWhile (· != '/') with
  | nil =>
    -- The path is a single segment.
    rw [hw, List.append_nil] at hparts
    have hreverse : '/' ∉ r.reverse := by rwa [← hparts, List.mem_reverse]
    obtain ⟨c, hc, hcomponents⟩ :=
      exists_components_segment (List.reverse_ne_nil_iff.2 h) hreverse
    rw [habs, isAbsolute_of_not_mem hreverse]
    exact isParent_of_components hc (hp.trans hcomponents)
  | cons d u =>
    rw [hw] at hhead hparts
    obtain rfl : d = '/' := by simpa using hhead
    -- Idle segments at the end are dropped, so the last one is none of them.
    have hidle : ¬IsIdle s.reverse := by
      rintro (hs | hs)
      · rw [List.reverse_eq_nil_iff] at hs
        exact hslash u (hparts.symm.trans (by rw [hs]; rfl))
      · rw [List.reverse_eq_iff] at hs
        exact hdot u (hparts.symm.trans (by rw [hs]; rfl))
    have hreverse : r.reverse = u.reverse ++ '/' :: s.reverse := by
      rw [← hparts, List.reverse_append, List.reverse_cons, List.append_assoc,
        List.singleton_append]
    obtain ⟨c, hc, hcomponents⟩ :=
      exists_components_append hidle (by rwa [List.mem_reverse]) u.reverse
    have habs : isAbsolute p = isAbsolute (u.reverse ++ ['/']) := by
      rw [habs, hreverse, List.append_cons, isAbsolute_append (by simp)]
    -- The parent is what stands in front of the separator, read again up to its last
    -- component.
    refine isParent_of_components hc ?_
    rw [habs, components_upTo, hp, hreverse, hcomponents]
    simp only [List.reverse_eq_nil_iff]

/-- The root and the empty path have no parent. Any other path has one, with all its components
but the last. -/
theorem parent?_cases (p : Text) :
    (parent? p = none ∧ IsBare (components p)) ∨ ∃ q, parent? p = some q ∧ IsParent q p := by
  rw [parent?_eq]
  split_ifs with h
  · have hp := components_of_dropEnd_eq_nil h
    rw [List.reverse_reverse] at hp
    refine Or.inl ⟨rfl, ?_⟩
    rw [hp]
    split_ifs
    · exact Or.inr rfl
    · exact Or.inl rfl
  · exact Or.inr ⟨_, rfl, isParent_upTo h⟩

theorem isBare_of_parent?_eq_none (h : parent? p = none) : IsBare (components p) := by
  rcases parent?_cases p with ⟨-, hbare⟩ | ⟨q, hsome, -⟩
  · exact hbare
  · cases h.symm.trans hsome

theorem isParent_of_parent?_eq_some (h : parent? p = some q) : IsParent q p := by
  rcases parent?_cases p with ⟨hnone, -⟩ | ⟨q', hsome, hparent⟩
  · cases hnone.symm.trans h
  · exact Option.some.inj (hsome.symm.trans h) ▸ hparent

/-! ### The way outwards -/

/-- The directories that a path names: the path itself, then its parents. -/
def outwards (p : Text) : List Text :=
  match _h : parent? p with
  | none => [p]
  | some q => p :: outwards q
termination_by p.length
decreasing_by exact parent?_length _h

theorem outwards_of_none (h : parent? p = none) : outwards p = [p] := by
  rw [outwards]
  split
  · rfl
  · rename_i hq
    cases h.symm.trans hq

theorem outwards_of_some (h : parent? p = some q) : outwards p = p :: outwards q := by
  rw [outwards]
  split
  · rename_i hq
    cases h.symm.trans hq
  · rename_i hq
    cases h.symm.trans hq
    rfl

theorem exists_outwards_cons (p : Text) : ∃ ds, outwards p = p :: ds := by
  cases h : parent? p with
  | none => exact ⟨[], outwards_of_none h⟩
  | some q => exact ⟨outwards q, outwards_of_some h⟩

/-- Directories that lead from a path outwards, each to its parent, until only the empty path
or the root is left. -/
structure IsAscent (p : Text) (ds : List Text) : Prop where
  starts : ds.head? = some p
  parents : ds.IsChain fun d e => IsParent e d
  ends : ∃ d, ds.getLast? = some d ∧ IsBare (components d)

theorem isAscent_outwards (p : Text) : IsAscent p (outwards p) := by
  fun_induction outwards p with
  | case1 p hnone =>
    exact ⟨rfl, List.isChain_singleton p, p, rfl, isBare_of_parent?_eq_none hnone⟩
  | case2 p q hsome ih =>
    obtain ⟨hstarts, hparents, d, hd, hbare⟩ := ih
    refine ⟨rfl, List.IsChain.cons hparents ?_, d, ?_, hbare⟩
    · intro e he
      rw [hstarts] at he
      exact Option.some.inj he ▸ isParent_of_parent?_eq_some hsome
    · rw [List.getLast?_cons, hd]
      rfl

/-- The components of the directories on the way stand in front of those of the path. -/
theorem components_prefix_of_mem_outwards {d : Text} (h : d ∈ outwards p) :
    components d <+: components p := by
  fun_induction outwards p with
  | case1 p =>
    rw [List.mem_singleton.1 h]
  | case2 p q hsome ih =>
    rcases List.mem_cons.1 h with rfl | h
    · exact List.prefix_rfl
    · have hparent := isParent_of_parent?_eq_some hsome
      exact (ih h).trans (hparent.2 ▸ List.dropLast_prefix _)

end Path

end TemplateCatalog
