/-
Lists and results.

What the theory takes from lists in general: where a run in front ends, what is found where two
lists meet, the members of a list in order; and what happens to results when a function is
mapped over them.
-/
import Mathlib.Data.List.Basic
import Mathlib.Data.List.Infix
import Mathlib.Data.List.Pairwise
import Mathlib.Data.List.TakeWhile

namespace TemplateCatalog

variable {α β γ ε : Type}

/-! ### Runs in front -/

/-- Behind a run stands what does not belong to it. -/
theorem head?_dropWhile (p : α → Bool) (l : List α) :
    ∀ a ∈ (l.dropWhile p).head?, p a = false := by
  intro a ha
  have hd := List.head?_dropWhile_not p l
  rw [Option.mem_def] at ha
  simpa [ha] using hd

/-- A run ends where a list ends that is followed by a member outside of the run. -/
theorem takeWhile_append_of_stop {p : α → Bool} {s r : List α}
    (h : ∀ a ∈ r.head?, p a = false) : (s ++ r).takeWhile p = s.takeWhile p := by
  induction s with
  | nil =>
    cases r with
    | nil => rfl
    | cons a r => simp [h a rfl]
  | cons a s ih =>
    rw [List.cons_append, List.takeWhile_cons, List.takeWhile_cons, ih]

theorem dropWhile_append_of_stop {p : α → Bool} {s r : List α}
    (h : ∀ a ∈ r.head?, p a = false) : (s ++ r).dropWhile p = s.dropWhile p ++ r := by
  induction s with
  | nil =>
    cases r with
    | nil => rfl
    | cons a r => simp [h a rfl]
  | cons a s ih =>
    rw [List.cons_append, List.dropWhile_cons, List.dropWhile_cons, ih]
    split <;> rfl

theorem dropWhile_of_head? {p : α → Bool} {s : List α} (h : ∀ a ∈ s.head?, p a = false) :
    s.dropWhile p = s := by
  simpa using dropWhile_append_of_stop (s := []) h

/-! ### Where two lists meet -/

/-- Two members in a row are found in one of two lists, or where they meet. -/
theorem pair_infix_append {a b : α} {s t : List α} (h : [a, b] <:+: s ++ t) :
    [a, b] <:+: s ∨ [a, b] <:+: t ∨ s.getLast? = some a := by
  induction s with
  | nil => exact Or.inr (Or.inl h)
  | cons e s ih =>
    rw [List.cons_append, List.infix_cons_iff] at h
    rcases h with h | h
    · cases s with
      | nil =>
        rw [List.cons_prefix_cons] at h
        exact Or.inr (Or.inr (by rw [h.1]; rfl))
      | cons f s =>
        simp only [List.cons_append, List.cons_prefix_cons, List.nil_prefix, and_true] at h
        exact Or.inl ⟨[], s, by simp [h.1, h.2]⟩
    · rcases ih h with h | h | h
      · exact Or.inl (h.trans (List.suffix_cons e s).isInfix)
      · exact Or.inr (Or.inl h)
      · refine Or.inr (Or.inr ?_)
        rw [List.getLast?_cons, h]
        rfl

/-- A list is cut in one way only behind the last place of a member. -/
theorem append_inj_of_getLast? {a : α} {u v s t : List α} (hu : u.getLast? = some a)
    (hv : v.getLast? = some a) (hs : a ∉ s) (ht : a ∉ t) (h : u ++ s = v ++ t) : u = v ∧
      s = t := by
  have hnil {w x r : List α} (hw : (w ++ x).getLast? = some a) (hr : a ∉ x ++ r) : x = [] := by
    by_contra hne
    rw [List.getLast?_append_of_ne_nil _ hne] at hw
    exact hr (List.mem_append_left _ (List.mem_of_getLast? hw))
  rcases List.append_eq_append_iff.1 h with ⟨x, rfl, rfl⟩ | ⟨x, rfl, rfl⟩
  · obtain rfl := hnil hv hs
    simp
  · obtain rfl := hnil hu ht
    simp

/-- What is not in the separator is found in the parts. -/
theorem mem_intercalate_iff {a : α} {sep : List α} (ha : a ∉ sep) (ls : List (List α)) :
    a ∈ sep.intercalate ls ↔ ∃ l ∈ ls, a ∈ l := by
  induction ls with
  | nil => simp
  | cons l ls ih =>
    cases ls with
    | nil => simp
    | cons m ls =>
      rw [List.intercalate_cons_cons, List.mem_append, List.mem_append, or_iff_left ha, ih]
      simp only [List.exists_mem_cons_iff]

/-! ### Members -/

/-- Of two members of a list in order, they are one, or one stands before the other. -/
theorem pairwise_cases {R : α → α → Prop} {l : List α} (h : l.Pairwise R) {a b : α}
    (ha : a ∈ l) (hb : b ∈ l) : a = b ∨ R a b ∨ R b a := by
  refine List.Pairwise.forall_of_forall_of_flip (R := fun a b => a = b ∨ R a b ∨ R b a)
    (fun x _ => Or.inl rfl) ?_ ?_ ha hb
  · exact h.imp fun hab => Or.inr (Or.inl hab)
  · exact h.imp fun hab => Or.inr (Or.inr hab)

theorem mem_of_lookup_eq_some [BEq α] [LawfulBEq α] {l : List (α × β)} {a : α} {b : β}
    (h : l.lookup a = some b) : (a, b) ∈ l := by
  obtain ⟨front, back, rfl, -⟩ := List.lookup_eq_some_iff.1 h
  exact List.mem_append_right _ List.mem_cons_self

theorem not_mem_of_lookup_eq_none [BEq α] [LawfulBEq α] {l : List (α × β)} {a : α}
    (h : l.lookup a = none) (b : β) : (a, b) ∉ l := fun hmem => by
  simpa using List.lookup_eq_none_iff.1 h _ hmem

/-- Entries with other keys can be left out. -/
theorem lookup_filter [BEq α] [LawfulBEq α] {keep : α → Bool} {l : List (α × β)} {a : α}
    (h : keep a = true) : (l.filter fun x => keep x.1).lookup a = l.lookup a := by
  induction l with
  | nil => rfl
  | cons x l ih =>
    obtain ⟨b, y⟩ := x
    rw [List.filter_cons, List.lookup_cons]
    by_cases hb : keep b = true
    · rw [if_pos hb, List.lookup_cons, ih]
    · have hab : (a == b) = false := beq_false_of_ne fun hab => hb (hab ▸ h)
      rw [if_neg hb, hab, ih]

/-! ### Results -/

theorem except_map_map (x : Except ε α) (f : α → β) (g : β → γ) :
    (x.map f).map g = x.map (g ∘ f) := by
  cases x <;> rfl

theorem toOption_map (x : Except ε α) (f : α → β) : (x.map f).toOption = x.toOption.map f := by
  cases x <;> rfl

theorem mapM_eq_ok_map {f : α → Except ε β} {g : α → β} {l : List α}
    (h : ∀ x ∈ l, f x = .ok (g x)) : l.mapM f = .ok (l.map g) := by
  induction l with
  | nil => rfl
  | cons x l ih =>
    obtain ⟨hx, hl⟩ := List.forall_mem_cons.1 h
    rw [List.mapM_cons, hx, ih hl]
    rfl

theorem exists_of_mem_mapM {f : α → Except ε β} {l : List α} {ys : List β} {y : β}
    (h : l.mapM f = .ok ys) (hy : y ∈ ys) : ∃ x ∈ l, f x = .ok y := by
  induction l generalizing ys with
  | nil =>
    cases h
    cases hy
  | cons x l ih =>
    rw [List.mapM_cons] at h
    cases hx : f x with
    | error e =>
      rw [hx] at h
      cases h
    | ok z =>
      cases hl : l.mapM f with
      | error e =>
        rw [hx, hl] at h
        cases h
      | ok zs =>
        rw [hx, hl] at h
        cases h
        rcases List.mem_cons.1 hy with rfl | hy
        · exact ⟨x, List.mem_cons_self, hx⟩
        · obtain ⟨x', hx', hfx'⟩ := ih hl hy
          exact ⟨x', List.mem_cons_of_mem _ hx', hfx'⟩

end TemplateCatalog
