import Mathlib.Data.List.Find
import Mathlib.Data.List.Infix

/-!
# Replacing texts in one pass

A list of rules, each an old and a new text, applied while reading an input
from left to right: where the old text of a rule stands, its new text is
written and the reading goes on behind it; elsewhere one element is copied.
`Scans rules text out rest` is a part of such a pass, from `text` to the
place `rest`, having written `out`.
-/

namespace Rewriting

structure Rule (α : Type) where
  old : List α
  new : List α
  nonempty : old ≠ []
  deriving DecidableEq

variable {α : Type} [DecidableEq α]

/-- The rule that is applied at a place: the first whose old text stands
there. -/
def hit (rules : List (Rule α)) (text : List α) : Option (Rule α) :=
  rules.find? fun r => r.old.isPrefixOf text

/-- The pass when the next `skip` elements have been replaced already. -/
def scanFrom (rules : List (Rule α)) : Nat → List α → List α
  | _, [] => []
  | skip + 1, _ :: rest => scanFrom rules skip rest
  | 0, c :: rest =>
    match hit rules (c :: rest) with
    | some r => r.new ++ scanFrom rules (r.old.length - 1) rest
    | none => c :: scanFrom rules 0 rest

def scan (rules : List (Rule α)) (text : List α) : List α := scanFrom rules 0 text

/-- From `text` on, the pass writes `out` and arrives at `rest`. -/
inductive Scans (rules : List (Rule α)) : List α → List α → List α → Prop
  | done : Scans rules rest [] rest
  | replaced : hit rules text = some r → Scans rules (text.drop r.old.length) out rest →
      Scans rules text (r.new ++ out) rest
  | copied : hit rules (c :: text) = none → Scans rules text out rest →
      Scans rules (c :: text) (c :: out) rest

section
variable {rules : List (Rule α)} {r : Rule α} {text rest out u v : List α} {c s : α}

-- ---------------------------------------------------------------------------
-- One step
-- ---------------------------------------------------------------------------

theorem hit_some (h : hit rules text = some r) : r ∈ rules ∧ r.old <+: text := by
  unfold hit at h
  have hold := List.find?_some h
  exact ⟨List.mem_of_find?_eq_some h, List.isPrefixOf_iff_prefix.mp hold⟩

theorem hit_eq_none : hit rules text = none ↔ ∀ r ∈ rules, ¬r.old <+: text := by
  simp [hit, List.find?_eq_none]

theorem hit_nil : hit rules ([] : List α) = none :=
  hit_eq_none.mpr fun r _ h => r.nonempty (List.prefix_nil.mp h)

theorem scanFrom_eq (rules : List (Rule α)) (skip : Nat) (text : List α) :
    scanFrom rules skip text = scan rules (text.drop skip) := by
  induction text generalizing skip with
  | nil => rw [List.drop_nil, scan, scanFrom, scanFrom]
  | cons c rest ih =>
    cases skip with
    | zero => rfl
    | succ skip => rw [scanFrom, ih, List.drop_succ_cons]

@[simp] theorem scan_nil (rules : List (Rule α)) :
    scan rules ([] : List α) = [] := by rw [scan, scanFrom]

theorem scan_hit (h : hit rules text = some r) :
    scan rules text = r.new ++ scan rules (text.drop r.old.length) := by
  cases text with
  | nil =>
    rw [hit_nil] at h
    cases h
  | cons c rest =>
    have hlen : r.old.length - 1 + 1 = r.old.length :=
      Nat.sub_add_cancel (List.length_pos_iff.mpr r.nonempty)
    rw [scan, scanFrom, h]
    simp only
    rw [scanFrom_eq, ← hlen, List.drop_succ_cons, Nat.add_sub_cancel]

theorem scan_miss (h : hit rules (c :: rest) = none) :
    scan rules (c :: rest) = c :: scan rules rest := by
  rw [scan, scanFrom, h]
  rfl

theorem scan_induct (rules : List (Rule α)) {motive : List α → Prop} (nil : motive [])
    (copied : ∀ c rest, hit rules (c :: rest) = none → motive rest → motive (c :: rest))
    (replaced : ∀ text r, hit rules text = some r → motive (text.drop r.old.length) → motive text)
    (text : List α) : motive text := by
  induction hlen : text.length using Nat.strongRecOn generalizing text with
  | ind n ih =>
    cases text with
    | nil => exact nil
    | cons c rest =>
      cases hhit : hit rules (c :: rest) with
      | none => exact copied c rest hhit (ih rest.length (by simp [← hlen]) rest rfl)
      | some r =>
        have hpos := List.length_pos_iff.mpr r.nonempty
        refine replaced _ r hhit (ih _ ?_ _ rfl)
        rw [List.length_drop, hlen]
        simp only [List.length_cons] at hlen
        omega

/-- Among rules with the longer before the shorter, none that stands at a
place is longer than the one that is applied. -/
theorem length_le_of_hit (hsorted : rules.Pairwise fun a b => b.old.length ≤ a.old.length)
    {a : Rule α} (ha : hit rules text = some a) (hr : r ∈ rules) (hold : r.old <+: text) :
    r.old.length ≤ a.old.length := by
  obtain ⟨-, before, behind, rfl, hbefore⟩ := List.find?_eq_some_iff_append.mp ha
  rcases List.mem_append.mp hr with h | h
  · have hnot := hbefore r h
    rw [List.isPrefixOf_iff_prefix.mpr hold] at hnot
    cases hnot
  · rcases List.mem_cons.mp h with rfl | h
    · exact le_rfl
    · exact (List.pairwise_cons.mp (List.pairwise_append.mp hsorted).2.1).1 r h

/-- If their old texts are distinct too, the longest that stands at a place is
applied. -/
theorem hit_of_longest (hsorted : rules.Pairwise fun a b => b.old.length ≤ a.old.length)
    (hdistinct : ∀ a ∈ rules, ∀ b ∈ rules, a.old = b.old → a = b) (hr : r ∈ rules)
    (hold : r.old <+: text) (hlongest : ∀ a ∈ rules, a.old <+: text → a.old.length ≤ r.old.length) :
    hit rules text = some r := by
  obtain hnone | ⟨a, ha⟩ := Option.eq_none_or_eq_some (hit rules text)
  · exact absurd hold (hit_eq_none.mp hnone r hr)
  · obtain ⟨hmem, hstands⟩ := hit_some ha
    have heq : a.old = r.old :=
      (List.prefix_of_prefix_length_le hstands hold (hlongest a hmem hstands)).eq_of_length
        (le_antisymm (hlongest a hmem hstands) (length_le_of_hit hsorted ha hr hold))
    rw [ha, hdistinct a hmem r hr heq]

-- ---------------------------------------------------------------------------
-- A part of a pass
-- ---------------------------------------------------------------------------

theorem Scans.scan_eq (h : Scans rules text out rest) :
    scan rules text = out ++ scan rules rest := by
  induction h with
  | done => rfl
  | replaced hhit _ ih => rw [scan_hit hhit, ih, List.append_assoc]
  | copied hmiss _ ih => rw [scan_miss hmiss, ih, List.cons_append]

theorem scans_copy (h : ∀ i < u.length, hit rules ((u ++ v).drop i) = none) :
    Scans rules (u ++ v) u v := by
  induction u with
  | nil => exact .done
  | cons c u ih =>
    refine .copied (h 0 (Nat.zero_lt_succ _)) (ih fun i hi => ?_)
    have hnext := h (i + 1) (Nat.succ_lt_succ hi)
    rwa [List.cons_append, List.drop_succ_cons] at hnext

theorem scan_of_absent (h : ∀ r ∈ rules, ¬r.old <:+: text) : scan rules text = text := by
  have hmiss : ∀ i < text.length, hit rules ((text ++ []).drop i) = none := by
    intro i _
    rw [List.append_nil, hit_eq_none]
    exact fun r hr hold => h r hr (hold.isInfix.trans (List.drop_suffix i text).isInfix)
  have hcopy := (scans_copy hmiss).scan_eq
  rwa [List.append_nil, scan_nil, List.append_nil] at hcopy

-- ---------------------------------------------------------------------------
-- Separators
-- ---------------------------------------------------------------------------

theorem mem_scan (h : c ∈ scan rules text) : c ∈ text ∨ ∃ r ∈ rules, c ∈ r.new := by
  induction text using scan_induct rules with
  | nil =>
    rw [scan_nil] at h
    exact .inl h
  | copied d tail hmiss ih =>
    rw [scan_miss hmiss] at h
    rcases List.mem_cons.mp h with rfl | h
    · exact .inl List.mem_cons_self
    · exact (ih h).imp_left (List.mem_cons_of_mem _)
  | replaced text r hhit ih =>
    rw [scan_hit hhit] at h
    rcases List.mem_append.mp h with h | h
    · exact .inr ⟨r, (hit_some hhit).1, h⟩
    · exact (ih h).imp_left List.mem_of_mem_drop

theorem splitOn_induct (s : α) {motive : List α → Prop} (last : ∀ part, s ∉ part → motive part)
    (more : ∀ part rest, s ∉ part → motive rest → motive (part ++ s :: rest)) (text : List α) :
    motive text := by
  induction hlen : text.length using Nat.strongRecOn generalizing text with
  | ind n ih =>
    by_cases hs : s ∈ text
    · obtain ⟨part, rest, rfl, hpart⟩ := List.eq_append_cons_of_mem hs
      rw [List.length_append, List.length_cons] at hlen
      exact more part rest hpart (ih rest.length (by omega) rest rfl)
    · exact last text hs

theorem splitOn_cons (h : s ∉ u) : (u ++ s :: rest).splitOn s = u :: rest.splitOn s := by
  rw [List.splitOn_append_cons_self, List.splitOn_eq_singleton h, List.singleton_append]

theorem infix_of_mem_splitOn (hu : u ∈ text.splitOn s) : u <:+: text := by
  induction text using splitOn_induct s with
  | last part hpart =>
    rw [List.splitOn_eq_singleton hpart, List.mem_singleton] at hu
    exact hu ▸ List.infix_rfl
  | more part rest hpart ih =>
    rw [splitOn_cons hpart, List.mem_cons] at hu
    rcases hu with rfl | hu
    · exact (List.prefix_append _ _).isInfix
    · exact (ih hu).trans ((List.suffix_cons _ _).trans (List.suffix_append _ _)).isInfix

theorem forall_of_splitOn (s : α) {p : α → Prop} (hs : p s)
    (h : ∀ u ∈ text.splitOn s, ∀ c ∈ u, p c) :
    ∀ c ∈ text, p c := by
  induction text using splitOn_induct s with
  | last part hpart =>
    rw [List.splitOn_eq_singleton hpart] at h
    exact h part (List.mem_singleton_self part)
  | more part rest hpart ih =>
    rw [splitOn_cons hpart, List.forall_mem_cons] at h
    rw [List.forall_mem_append, List.forall_mem_cons]
    exact ⟨h.1, hs, ih h.2⟩

theorem Scans.trans (h : Scans rules text out rest) (h' : Scans rules rest u v) :
    Scans rules text (out ++ u) v := by
  induction h with
  | done => exact h'
  | replaced hhit _ ih =>
    rw [List.append_assoc]
    exact .replaced hhit (ih h')
  | copied hmiss _ ih => exact .copied hmiss (ih h')

end

-- ---------------------------------------------------------------------------
-- Segments
-- ---------------------------------------------------------------------------

/-- A piece of the input: an old text that is replaced, or one element that is
copied. -/
inductive Segment (α : Type) where
  | replaced (r : Rule α)
  | copied (c : α)
  deriving DecidableEq

namespace Segment

def read : Segment α → List α
  | replaced r => r.old
  | copied c => [c]

def written : Segment α → List α
  | replaced r => r.new
  | copied c => [c]

end Segment

/-- The text cut from left to right into the longest old text that stands at a
place, or one element where none does. It says nothing of the order of the
rules. -/
inductive Segmented (rules : List (Rule α)) : List α → List (Segment α) → Prop
  | nil : Segmented rules [] []
  | replaced : r ∈ rules → (∀ a ∈ rules, a.old <+: r.old ++ rest → a.old.length ≤ r.old.length) →
      Segmented rules rest segments → Segmented rules (r.old ++ rest) (.replaced r :: segments)
  | copied : (∀ r ∈ rules, ¬r.old <+: c :: rest) → Segmented rules rest segments →
      Segmented rules (c :: rest) (.copied c :: segments)

section
variable {rules rules' : List (Rule α)} {r : Rule α} {text rest : List α}
    {segments segments' : List (Segment α)}

omit [DecidableEq α] in
theorem Segmented.read (h : Segmented rules text segments) :
    segments.flatMap Segment.read = text := by
  induction h with
  | nil => rfl
  | replaced _ _ _ ih => rw [List.flatMap_cons, ih, Segment.read]
  | copied _ _ ih => rw [List.flatMap_cons, ih, Segment.read, List.singleton_append]

omit [DecidableEq α] in
theorem Segmented.congr (hsame : ∀ r, r ∈ rules ↔ r ∈ rules') (h : Segmented rules text segments) :
    Segmented rules' text segments := by
  induction h with
  | nil => exact .nil
  | replaced hr hlongest _ ih =>
    exact .replaced ((hsame _).mp hr) (fun a ha => hlongest a ((hsame a).mpr ha)) ih
  | copied hnone _ ih => exact .copied (fun r hr => hnone r ((hsame r).mpr hr)) ih

/-- Rules with the longer before the shorter cut every text: at each place the
rule that is applied is the longest. -/
theorem exists_segmented (hsorted : rules.Pairwise fun a b => b.old.length ≤ a.old.length)
    (text : List α) :
    ∃ segments, Segmented rules text segments := by
  induction text using scan_induct rules with
  | nil => exact ⟨[], .nil⟩
  | copied c rest hmiss ih =>
    obtain ⟨segments, h⟩ := ih
    exact ⟨_, .copied (hit_eq_none.mp hmiss) h⟩
  | replaced text r hhit ih =>
    obtain ⟨segments, h⟩ := ih
    obtain ⟨hr, rest, rfl⟩ := hit_some hhit
    rw [List.drop_left] at h
    exact ⟨_, .replaced hr (fun a ha hold => length_le_of_hit hsorted hhit ha hold) h⟩

theorem Segmented.scan_eq (hsorted : rules.Pairwise fun a b => b.old.length ≤ a.old.length)
    (hdistinct : ∀ a ∈ rules, ∀ b ∈ rules, a.old = b.old → a = b)
    (h : Segmented rules text segments) :
    scan rules text = segments.flatMap Segment.written := by
  induction h with
  | nil => exact scan_nil rules
  | replaced hr hlongest _ ih =>
    have hhit := hit_of_longest hsorted hdistinct hr (List.prefix_append _ _) hlongest
    rw [scan_hit hhit, List.drop_left, ih, List.flatMap_cons, Segment.written]
  | copied hnone _ ih =>
    rw [scan_miss (hit_eq_none.mpr hnone), ih, List.flatMap_cons, Segment.written,
      List.singleton_append]

omit [DecidableEq α] in
theorem Segmented.unique (hdistinct : ∀ a ∈ rules, ∀ b ∈ rules, a.old = b.old → a = b)
    (h : Segmented rules text segments) (h' : Segmented rules text segments') :
    segments = segments' := by
  induction h generalizing segments' with
  | nil =>
    generalize htext : ([] : List α) = text at h'
    cases h' with
    | nil => rfl
    | replaced => exact absurd (List.append_eq_nil_iff.mp htext.symm).1 (Rule.nonempty _)
    | copied => cases htext
  | @replaced r rest segments hr hlongest _ ih =>
    generalize htext : r.old ++ rest = text at h'
    cases h' with
    | nil => exact absurd (List.append_eq_nil_iff.mp htext).1 r.nonempty
    | @replaced a rest' _ ha hlongest' h' =>
      have hlen : r.old.length = a.old.length := by
        refine le_antisymm (hlongest' r hr ?_) (hlongest a ha ?_)
        · exact htext ▸ List.prefix_append _ _
        · exact htext.symm ▸ List.prefix_append _ _
      obtain ⟨hold, rfl⟩ := List.append_inj htext hlen
      obtain rfl := hdistinct r hr a ha hold
      rw [ih h']
    | copied hnone => exact absurd ⟨rest, htext⟩ (hnone r hr)
  | @copied c rest segments hnone _ ih =>
    generalize htext : c :: rest = text at h'
    cases h' with
    | nil => cases htext
    | @replaced a rest' _ ha => exact absurd ⟨rest', htext.symm⟩ (hnone a ha)
    | copied _ h' =>
      cases htext
      rw [ih h']

end

end Rewriting
