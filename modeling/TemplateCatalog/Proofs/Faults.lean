/-
The faults of tokens.

Extraction walks through lists, of tokens and of the fragments of a block, joins what their
members give, and stops at the first fault. This is one function, `collect`, of which all is
said by two facts: what it gives for lists in a row (`collect_append`), and that a fault is
that of a member with no fault in front of it (`collect_eq_error_iff`).

`Token.Offends t e` says that the token `t` is at fault with `e`: it is a variable with
contents that are no expression, or a block with a scanned fragment that is none. A token is
extracted without a fault exactly if it does not offend (`exists_extractToken_eq_error_iff`),
and its fault lies inside of it (`Token.Offends.bounds`).
-/
import TemplateCatalog.Proofs.Capture

namespace TemplateCatalog

open Text

/-! ### Results -/

theorem ok_or_error (r : Except SyntaxError Extraction) :
    (∃ x, r = .ok x) ∨ ∃ e, r = .error e := by
  cases r with
  | ok x => exact Or.inl ⟨x, rfl⟩
  | error e => exact Or.inr ⟨e, rfl⟩

theorem map_empty_append (r : Except SyntaxError Extraction) :
    r.map (({} : Extraction) ++ ·) = r := by
  cases r <;> simp [Except.map]

theorem map_eq_error_iff {r : Except SyntaxError Extraction} {g : Extraction → Extraction}
    {e : SyntaxError} : r.map g = .error e ↔ r = .error e := by
  cases r <;> simp [Except.map]

/-! ### Walks -/

section Collect

variable {α β : Type} {f : α → Except SyntaxError Extraction} {l : List α}

/-- Joins what the members of a list give, up to the first fault. -/
def collect (f : α → Except SyntaxError Extraction) : List α → Except SyntaxError Extraction
  | [] => .ok {}
  | a :: l =>
    match f a with
    | .error e => .error e
    | .ok x => (collect f l).map (x ++ ·)

theorem collect_cons_error {a : α} {e : SyntaxError} (h : f a = .error e) :
    collect f (a :: l) = .error e := by
  rw [collect, h]

theorem collect_cons_ok {a : α} {x : Extraction} (h : f a = .ok x) :
    collect f (a :: l) = (collect f l).map (x ++ ·) := by
  rw [collect, h]

theorem collect_map (g : β → α) (l : List β) : collect f (l.map g) = collect (f ∘ g) l := by
  induction l with
  | nil => rfl
  | cons b l ih =>
    rw [List.map_cons, collect, collect, ih]
    rfl

theorem collect_congr {g : α → Except SyntaxError Extraction} (h : ∀ a ∈ l, f a = g a) :
    collect f l = collect g l := by
  induction l with
  | nil => rfl
  | cons a l ih =>
    rw [collect, collect, h a (List.mem_cons_self ..),
      ih fun b hb => h b (List.mem_cons_of_mem _ hb)]

/-- A walk goes on behind what it has passed. -/
theorem collect_append {x : Extraction} (h : collect f l = .ok x) (l' : List α) :
    collect f (l ++ l') = (collect f l').map (x ++ ·) := by
  induction l generalizing x with
  | nil =>
    rw [collect, Except.ok.injEq] at h
    subst h
    rw [List.nil_append]
    cases collect f l' <;> simp [Except.map]
  | cons a l ih =>
    cases ha : f a with
    | error e =>
      rw [collect_cons_error ha] at h
      exact absurd h (by simp)
    | ok y =>
      rw [collect_cons_ok ha] at h
      obtain ⟨z, hz, rfl⟩ := eq_ok_of_map h
      rw [List.cons_append, collect_cons_ok ha, ih hz]
      cases collect f l' <;> simp [Except.map, Extraction.append_assoc]

/-- A fault is that of a member with no fault in front of it. -/
theorem collect_eq_error_iff {e : SyntaxError} : collect f l = .error e ↔
    ∃ front a back x, l = front ++ a :: back ∧ collect f front = .ok x ∧ f a = .error e := by
  constructor
  · intro h
    -- The first error is that of the first member, or the first one of the rest.
    induction l with
    | nil => exact absurd h (by simp [collect])
    | cons a l ih =>
      cases ha : f a with
      | error e' =>
        rw [collect_cons_error ha] at h
        exact ⟨[], a, l, {}, rfl, rfl, by rw [ha, h]⟩
      | ok y =>
        rw [collect_cons_ok ha] at h
        cases hl : collect f l with
        | ok z =>
          rw [hl] at h
          exact absurd h (by simp [Except.map])
        | error e' =>
          rw [hl] at h
          obtain rfl : e' = e := by simpa [Except.map] using h
          obtain ⟨front, b, back, x, rfl, hfront, hb⟩ := ih hl
          refine ⟨a :: front, b, back, y ++ x, rfl, ?_, hb⟩
          rw [collect_cons_ok ha, hfront]
          rfl
  · rintro ⟨front, a, back, x, rfl, hfront, ha⟩
    rw [collect_append hfront, collect_cons_error ha]
    rfl

theorem exists_collect_eq_error_iff :
    (∃ e, collect f l = .error e) ↔ ∃ a ∈ l, ∃ e, f a = .error e := by
  constructor
  · rintro ⟨e, h⟩
    obtain ⟨front, a, back, -, rfl, -, ha⟩ := collect_eq_error_iff.1 h
    exact ⟨a, by simp, e, ha⟩
  · rintro ⟨a, ha, e, he⟩
    obtain ⟨front, back, rfl⟩ := List.append_of_mem ha
    -- Either the walk reaches the member, or it has stopped before.
    rcases ok_or_error (collect f front) with ⟨x, hx⟩ | ⟨e', hx⟩
    · exact ⟨e, collect_eq_error_iff.2 ⟨front, a, back, x, rfl, hx, he⟩⟩
    · obtain ⟨front', b, back', y, rfl, hy, hb⟩ := collect_eq_error_iff.1 hx
      exact ⟨e', collect_eq_error_iff.2 ⟨front', b, back' ++ a :: back, y, by simp, hy, hb⟩⟩

end Collect

theorem extractFragments_eq_collect (base : Nat) (fs : List Fragment) :
    extractFragments base fs = collect (extractFragment base) fs := by
  induction fs with
  | nil => rfl
  | cons f fs ih =>
    cases hf : extractFragment base f with
    | error e => rw [collect_cons_error hf, extractFragments, hf]
    | ok x => rw [collect_cons_ok hf, extractFragments, hf, ih]

theorem extractTokens_eq_collect (ts : List Token) :
    extractTokens ts = collect extractToken ts := by
  induction ts with
  | nil => rfl
  | cons t ts ih =>
    cases ht : extractToken t with
    | error e => rw [collect_cons_error ht, extractTokens, ht]
    | ok x => rw [collect_cons_ok ht, extractTokens, ht, ih]

theorem extract_of_tokenize {s : Text} {ts : List Token} (h : tokenize s = ⟨ts, none⟩) :
    extract s = extractTokens ts := by
  rw [extract, h]
  cases extractTokens ts <;> rfl

/-! ### Faults of fragments -/

theorem extractExpression_eq_error_iff {s : Text} {o : Nat} {e : SyntaxError} :
    extractExpression s o = .error e ↔ ∃ fault, FilterExpression.parse s = .error fault ∧
      e = .unparsableExpression s (o + fault.position) fault.fault := by
  rw [extractExpression]
  cases FilterExpression.parse s <;> simp [eq_comm]

/-- The fragment is no expression although `_(` occurs in it. -/
def Fragment.Rejected (f : Fragment) (e : FilterError) : Prop :=
  occurs translationOpener f.text = true ∧
    FilterExpression.parse (splitKeyword f.text).2 = .error e

/-- The fault that the fragment gives its template. -/
def Fragment.fault (f : Fragment) (e : FilterError) : SyntaxError :=
  .unparsableExpression (splitKeyword f.text).2
    (f.offset + byteSize (splitKeyword f.text).1 + e.position) e.fault

theorem extractFragment_eq_error_iff {f : Fragment} {e : SyntaxError} :
    extractFragment 0 f = .error e ↔ ∃ fault, f.Rejected fault ∧ e = f.fault fault := by
  rw [extractFragment]
  cases ho : occurs translationOpener f.text with
  | true => simp [extractExpression_eq_error_iff, Fragment.Rejected, Fragment.fault, ho]
  | false => simp [Fragment.Rejected, ho]

theorem extractFragment_shift (base : Nat) (f : Fragment) :
    extractFragment base f = extractFragment 0 (f.shift base) := by
  rw [extractFragment, extractFragment, Fragment.shift, Nat.zero_add]

/-- The fragments of a tag are walked through at their bytes in the template. -/
theorem extractFragments_eq_collect_map (base : Nat) (fs : List Fragment) :
    extractFragments base fs = collect (extractFragment 0) (fs.map (Fragment.shift base)) := by
  rw [extractFragments_eq_collect, collect_map]
  exact collect_congr fun f _ => extractFragment_shift base f

/-! ### Faults of tokens -/

/-- The token is at fault with the error. -/
inductive Token.Offends (t : Token) : SyntaxError → Prop
  /-- The contents of a variable are no expression. -/
  | variable {e} : t.kind = .tag .variable → FilterExpression.parse t.contents = .error e →
      Offends t (.unparsableExpression t.contents (t.contentsOffset + e.position) e.fault)
  /-- A scanned fragment of a block is no expression. -/
  | block {f e} : t.kind = .tag .block → f ∈ t.scanned → f.Rejected e → Offends t (f.fault e)

/-- A block gives its entry and its note, and then what its scanned fragments give. -/
theorem extractToken_block {t : Token} (hk : t.kind = .tag .block) :
    extractToken t = (collect (extractFragment 0) t.scanned).map
      (({ contextual := t.entry?.toList, skipped := t.skipped?.toList } : Extraction) ++
        ·) := by
  have hm : t.tagMatch = .ofContents t.contents := by rw [Token.tagMatch, hk]
  have ht : extractToken t = extractBlock t.contents t.contentsOffset := by
    rw [extractToken, hk]
  rw [ht, extractBlock]
  -- The match decides what comes in front of the fragments: nothing, an entry, or a note.
  cases hc : TagMatch.ofContents t.contents with
  | notI18n =>
    have he : t.entry? = none := by rw [Token.entry?, hm, hc]
    have hs : t.skipped? = none := by rw [Token.skipped?, hm, hc]
    rw [he, hs, scanned_block hk he, ← extractFragments_eq_collect_map]
    exact (map_empty_append _).symm
  | i18n entry arguments =>
    have he : t.entry? = some entry := by rw [Token.entry?, hm, hc]
    have hs : t.skipped? = none := by rw [Token.skipped?, hm, hc]
    rw [he, hs, scanned_i18n hk hc, ← extractFragments_eq_collect_map]
    rfl
  | malformed tag =>
    have he : t.entry? = none := by rw [Token.entry?, hm, hc]
    have hs : t.skipped? = some ⟨tag, t.contentsOffset + tag.offset⟩ := by
      rw [Token.skipped?, hm, hc]
    rw [he, hs, scanned_block hk he, ← extractFragments_eq_collect_map]
    rfl

theorem Token.offends_of_extractToken {t : Token} {e : SyntaxError}
    (h : extractToken t = .error e) : t.Offends e := by
  cases hk : t.kind with
  | text =>
    rw [extractToken, hk] at h
    exact absurd h (by simp)
  | tag k =>
    cases k with
    | comment =>
      rw [extractToken, hk] at h
      exact absurd h (by simp)
    | «variable» =>
      rw [extractToken, hk] at h
      obtain ⟨fault, hfault, rfl⟩ := extractExpression_eq_error_iff.1 h
      exact .variable hk hfault
    | block =>
      rw [extractToken_block hk, map_eq_error_iff] at h
      obtain ⟨front, f, back, -, hl, -, hf⟩ := collect_eq_error_iff.1 h
      obtain ⟨fault, hfault, rfl⟩ := extractFragment_eq_error_iff.1 hf
      exact .block hk (by simp [hl]) hfault

/-- A token is extracted without a fault exactly if it does not offend. -/
theorem exists_extractToken_eq_error_iff {t : Token} :
    (∃ e, extractToken t = .error e) ↔ ∃ e, t.Offends e := by
  constructor
  · rintro ⟨e, h⟩
    exact ⟨e, Token.offends_of_extractToken h⟩
  · rintro ⟨e, h⟩
    cases h with
    | @«variable» e hk hp =>
      refine ⟨.unparsableExpression t.contents (t.contentsOffset + e.position) e.fault, ?_⟩
      rw [extractToken, hk]
      exact extractExpression_eq_error_iff.2 ⟨e, hp, rfl⟩
    | block hk hf hr =>
      obtain ⟨e', he'⟩ := exists_collect_eq_error_iff.2
        ⟨_, hf, _, extractFragment_eq_error_iff.2 ⟨_, hr, rfl⟩⟩
      exact ⟨e', by rw [extractToken_block hk, map_eq_error_iff, he']⟩

theorem position_le_byteSize {s : Text} {e : FilterError}
    (h : FilterExpression.parse s = .error e) : e.position ≤ byteSize s := by
  rw [FilterExpression.parse] at h
  split at h
  · exact absurd h (by simp)
  · rw [Except.error.injEq] at h
    rw [← h]
    exact Nat.sub_le _ _

/-- A fault lies inside of its token. -/
theorem Token.Offends.bounds {t : Token} {e : SyntaxError} (h : t.Offends e) :
    t.start ≤ e.offset ∧ e.offset ≤ t.stop := by
  cases h with
  | @«variable» e hk hp =>
    obtain ⟨hlo, hhi, -⟩ := contents_bounds (Or.inl hk)
    have hpos := position_le_byteSize hp
    show t.start ≤ t.contentsOffset + e.position ∧ t.contentsOffset + e.position ≤ t.stop
    omega
  | @block f e hk hf hr =>
    obtain ⟨hlo, hhi⟩ := (Token.scanned_spread (Nat.le_add_right _ _)).bounds hf
    have hpos := position_le_byteSize hr.2
    have hsize := congrArg byteSize (splitKeyword_append f.text)
    rw [byteSize_append] at hsize
    rw [Fragment.stop] at hhi
    show t.start ≤ f.offset + byteSize (splitKeyword f.text).1 + e.position ∧
      f.offset + byteSize (splitKeyword f.text).1 + e.position ≤ t.stop
    omega

theorem Token.Offends.isTag {t : Token} {e : SyntaxError} (h : t.Offends e) :
    ∃ k, t.kind = .tag k := by
  cases h with
  | «variable» hk => exact ⟨_, hk⟩
  | block hk => exact ⟨_, hk⟩

end TemplateCatalog
