import GoClean.Bootstrap.Replacements

/-!
# One pass over a text

What `replaceOnce` does to a text, said without the order of its loop: the
text has one cut into longest old texts and single bytes, and each piece is
written once. If the texts are UTF-8, the pieces are whole runes, and a text
file stays one.
-/

namespace GoClean.Bootstrap

open Go Rewriting

-- ---------------------------------------------------------------------------
-- The loop
-- ---------------------------------------------------------------------------

/-- The rule as an item of the list that `normalizeReplacements` returns. -/
def asItem (r : Rule UInt8) : Replacement := ⟨r.old, r.new⟩

/-- The loop of `replaceOnce` over any items, from an offset and an output;
`none` if it has not ended after `fuel` rounds. -/
def replaceLoop (input : GoString) (replacements : List Replacement) :
    Nat → Nat → GoString → Option GoString
  | 0, offset, output => if offset < input.length then none else some output
  | fuel + 1, offset, output =>
    if h : offset < input.length then
      match replacements.find? fun item => hasPrefix (input.drop offset) item.old with
      | some item =>
        replaceLoop input replacements fuel (offset + item.old.length) (output ++ item.new)
      | none => replaceLoop input replacements fuel (offset + 1) (output ++ [input[offset]])
    else some output

def replaceOnceWithin (fuel : Nat) (input : GoString) (replacements : List Replacement) :
    Option GoString :=
  if replacements.isEmpty then some input else replaceLoop input replacements fuel 0 []

theorem find?_asItem (rules : List (Rule UInt8)) (text : GoString) :
    ((rules.map asItem).find? fun item => hasPrefix text item.old) = (hit rules text).map asItem :=
  List.find?_map

theorem replaceLoop_output (input : GoString) (replacements : List Replacement) (fuel offset : Nat)
    (output : GoString) :
    replaceLoop input replacements fuel offset output =
      (replaceLoop input replacements fuel offset []).map (output ++ ·) := by
  induction fuel generalizing offset output with
  | zero =>
    unfold replaceLoop
    split_ifs <;> simp
  | succ fuel ih =>
    unfold replaceLoop
    split_ifs with hoffset
    · split
      · rename_i item _
        rw [ih, ih _ ([] ++ item.new), Option.map_map]
        congr 1
        funext rest
        simp
      · rw [ih, ih _ ([] ++ _), Option.map_map]
        congr 1
        funext rest
        simp
    · simp

theorem replaceLoop_eq (rules : List (Rule UInt8)) (hfuel : input.length ≤ offset + fuel) :
    replaceLoop input (rules.map asItem) fuel offset output =
      some (output ++ scan rules (input.drop offset)) := by
  induction fuel generalizing offset output with
  | zero =>
    rw [replaceLoop, if_neg (by omega), List.drop_eq_nil_of_le (by omega),
      scan_nil, List.append_nil]
  | succ fuel ih =>
    unfold replaceLoop
    split_ifs with hoffset
    · rw [find?_asItem]
      cases hhit : hit rules (input.drop offset) with
      | some r =>
        have hpos := List.length_pos_iff.mpr r.nonempty
        simp only [Option.map_some]
        rw [ih (by simp only [asItem]; omega), scan_hit hhit, List.drop_drop,
          List.append_assoc, asItem]
      | none =>
        simp only [Option.map_none]
        rw [List.drop_eq_getElem_cons hoffset] at hhit ⊢
        rw [ih (by omega), scan_miss hhit, List.append_assoc, List.singleton_append]
    · rw [List.drop_eq_nil_of_le (by omega), scan_nil, List.append_nil]

theorem replaceOnceWithin_eq (rules : List (Rule UInt8)) (hfuel : input.length ≤ fuel) :
    replaceOnceWithin fuel input (rules.map asItem) = some (replaceOnce input rules) := by
  unfold replaceOnceWithin
  split_ifs with hempty
  · rw [List.isEmpty_iff, List.map_eq_nil_iff] at hempty
    rw [hempty, replaceOnce, scan_of_absent fun r hr => absurd hr List.not_mem_nil]
  · rw [replaceLoop_eq rules (by omega), List.drop_zero, List.nil_append, replaceOnce]

-- ---------------------------------------------------------------------------
-- The cut
-- ---------------------------------------------------------------------------

theorem replaceOnce_of_segmented (h : Segmented (normalizeReplacements items) input segments) :
    replaceOnce input (normalizeReplacements items) = segments.flatMap Segment.written :=
  h.scan_eq (normalizeReplacements_longest items) fun _ ha _ hb heq =>
    normalizeReplacements_distinct ha hb heq

theorem replaceOnce_perm (hperm : items.Perm items') (hdistinct : (items.map Replacement.old).Nodup)
    (input : GoString) :
    replaceOnce input (normalizeReplacements items') =
      replaceOnce input (normalizeReplacements items) := by
  -- one cut serves both lists
  obtain ⟨segments, h⟩ := exists_segmented (normalizeReplacements_longest items) input
  have h' := h.congr (normalizeReplacements_perm hperm hdistinct)
  rw [replaceOnce_of_segmented h, replaceOnce_of_segmented h']

/-- The input has exactly one cut into longest old texts and single bytes. The
loop ends after at most one round for each byte, having written for each piece
its new text or the byte; what is written next does not depend on what has
been written; and the order of items with distinct old texts does not
matter. -/
theorem replaceOnce_single_pass (input : GoString) (items : List Replacement) :
    ∃ segments,
      (∀ others, Segmented (normalizeReplacements items) input others ↔ others = segments) ∧
      segments.flatMap Segment.read = input ∧
      replaceOnce input (normalizeReplacements items) = segments.flatMap Segment.written ∧
      (∀ fuel, input.length ≤ fuel →
        replaceOnceWithin fuel input ((normalizeReplacements items).map asItem) =
          some (segments.flatMap Segment.written)) ∧
      (∀ fuel offset output,
        replaceLoop input ((normalizeReplacements items).map asItem) fuel offset output =
          (replaceLoop input ((normalizeReplacements items).map asItem) fuel offset []).map
          (output ++ ·)) ∧
      ∀ items', items.Perm items' → (items.map Replacement.old).Nodup →
        replaceOnce input (normalizeReplacements items') =
          replaceOnce input (normalizeReplacements items) := by
  obtain ⟨segments, h⟩ := exists_segmented (normalizeReplacements_longest items) input
  have hwritten := replaceOnce_of_segmented h
  refine ⟨segments, fun others => ⟨fun h' => ?_, fun heq => heq ▸ h⟩, h.read, hwritten,
    fun fuel hfuel => ?_, replaceLoop_output input _, fun items' hperm hdistinct =>
    replaceOnce_perm hperm hdistinct input⟩
  · exact h'.unique (fun _ ha _ hb heq => normalizeReplacements_distinct ha hb heq) h
  · rw [replaceOnceWithin_eq _ hfuel, hwritten]

def slugItems : List Replacement :=
  [⟨str "old-slug", str "new-old-slug"⟩, ⟨str "old", str "replacement"⟩]

theorem replaceOnce_single_pass_slug :
    replaceOnceWithin 12 (str "old-slug old") ((normalizeReplacements slugItems).map asItem) =
      some (str "new-old-slug replacement") ∧
    replaceOnce (str "old-slug old") (normalizeReplacements slugItems.reverse) =
      str "new-old-slug replacement" := by
  obtain ⟨segments, -, -, hwritten, hloop, -, hperm⟩ :=
    replaceOnce_single_pass (str "old-slug old") slugItems
  have hout : replaceOnce (str "old-slug old") (normalizeReplacements slugItems) =
      str "new-old-slug replacement" := by
    decide +kernel
  refine ⟨?_, ?_⟩
  · rw [hloop 12 (by decide), ← hwritten, hout]
  · rw [hperm slugItems.reverse slugItems.reverse_perm.symm (by decide), hout]

-- ---------------------------------------------------------------------------
-- Text stays text
-- ---------------------------------------------------------------------------

section
variable {rules : List (Rule UInt8)} {r : Rule UInt8} {input : GoString}

theorem lead_of_old (hold : validString r.old = true) (hstands : r.old <+: input.drop i) :
    ∃ lead, input[i]? = some lead ∧ isTail lead = false := by
  obtain ⟨lead, rest, heq⟩ := List.exists_cons_of_ne_nil r.nonempty
  obtain ⟨behind, hbehind⟩ := hstands
  have hrune := ((validString_step r.nonempty).mp hold).1
  rw [heq] at hrune
  refine ⟨lead, ?_, lead_of_runeLen hrune⟩
  rw [← List.head?_drop, ← hbehind, heq, List.cons_append, List.head?_cons]

theorem runeBoundary_of_old (hinput : validString input = true) (hold : validString r.old = true)
    (hstands : r.old <+: input.drop i) :
    RuneBoundary input i ∧ RuneBoundary input (i + r.old.length) := by
  obtain ⟨lead, hbyte, hlead⟩ := lead_of_old hold hstands
  have hstart := runeBoundary_of_lead hinput hbyte hlead
  exact ⟨hstart, hstart.add hold hstands⟩

/-- Where no old text stands at a rune, the pass copies the whole rune: none
stands inside it, where only tails follow. -/
theorem scans_rune (hold : ∀ r ∈ rules, validString r.old = true) (hrune : runeLen input ≠ 0)
    (hmiss : hit rules input = none) :
    Scans rules input (input.take (runeWidth input)) (input.drop (runeWidth input)) := by
  have hcopy : ∀ i < (input.take (runeWidth input)).length,
      hit rules ((input.take (runeWidth input) ++ input.drop (runeWidth input)).drop i) = none := by
    intro i hi
    rw [List.take_append_drop]
    rcases Nat.eq_zero_or_pos i with rfl | hpos
    · exact hmiss
    · refine hit_eq_none.mpr fun r hr hstands => ?_
      obtain ⟨lead, hbyte, hlead⟩ := lead_of_old (hold r hr) hstands
      rw [List.length_take] at hi
      exact absurd (tail_of_runeLen hrune hpos (by omega) hbyte) (Bool.eq_false_iff.mp hlead)
  have hscans := scans_copy hcopy
  rwa [List.take_append_drop] at hscans

theorem validString_scan (hold : ∀ r ∈ rules, validString r.old = true)
    (hnew : ∀ r ∈ rules, validString r.new = true) (hinput : validString input = true) :
    validString (scan rules input) = true := by
  -- along the pass, but in steps of whole runes, so that what is left is valid
  induction hlen : input.length using Nat.strongRecOn generalizing input with
  | ind n ih =>
    by_cases hempty : input = []
    · rw [hempty, scan_nil]
      rfl
    · have hlength := List.length_pos_iff.mpr hempty
      obtain ⟨hrune, hrest⟩ := (validString_step hempty).mp hinput
      cases hhit : hit rules input with
      | none =>
        have hwidth := runeWidth_pos input
        rw [(scans_rune hold hrune hhit).scan_eq,
          validString_append (validString_first hempty hrune)]
        exact ih _ (by rw [List.length_drop]; omega) hrest rfl
      | some r =>
        obtain ⟨hr, behind, rfl⟩ := hit_some hhit
        have hpos := List.length_pos_iff.mpr r.nonempty
        rw [validString_append (hold r hr)] at hinput
        rw [scan_hit hhit, List.drop_left, validString_append (hnew r hr)]
        exact ih _ (by rw [← hlen, List.length_append]; omega) hinput rfl

theorem isText_iff : isText input = true ↔ 0 ∉ input ∧ validString input = true := by
  simp [isText]

theorem isText_scan (hold : ∀ r ∈ rules, validString r.old = true)
    (hnew : ∀ r ∈ rules, validString r.new = true ∧ 0 ∉ r.new) (htext : isText input = true) :
    isText (replaceOnce input rules) = true := by
  rw [isText_iff] at htext ⊢
  obtain ⟨hzero, hvalid⟩ := htext
  refine ⟨fun h => ?_, validString_scan hold (fun r hr => (hnew r hr).1) hvalid⟩
  rcases mem_scan h with h | ⟨r, hr, h⟩
  · exact hzero h
  · exact (hnew r hr).2 h

/-- A pass whose texts are UTF-8 keeps a text file one, and wherever an old
text stands in it, it stands at whole runes. -/
theorem isText_replaceOnce (input : GoString) (items : List Replacement)
    (htext : isText input = true)
    (hold : ∀ r ∈ normalizeReplacements items, validString r.old = true)
    (hnew : ∀ r ∈ normalizeReplacements items, validString r.new = true ∧ 0 ∉ r.new) :
    isText (replaceOnce input (normalizeReplacements items)) = true ∧
      ∀ r ∈ normalizeReplacements items, ∀ i, r.old <+: input.drop i →
        RuneBoundary input i ∧ RuneBoundary input (i + r.old.length) := by
  have hvalid := (isText_iff.mp htext).2
  exact ⟨isText_scan hold hnew htext, fun r hr i => runeBoundary_of_old hvalid (hold r hr)⟩

/-- An accented old text over one that is not. -/
theorem isText_replaceOnce_accent :
    isText (replaceOnce (str "café, cafés") (normalizeReplacements [⟨str "é", str "ée"⟩])) = true ∧
      RuneBoundary (str "café, cafés") 3 ∧ RuneBoundary (str "café, cafés") 5 := by
  have hrules : normalizeReplacements [⟨str "é", str "ée"⟩] = [⟨str "é", str "ée", by decide⟩] := by
    decide +kernel
  obtain ⟨htext, hplaces⟩ :=
    isText_replaceOnce (str "café, cafés") [⟨str "é", str "ée"⟩] (by decide +kernel)
    (by rw [hrules]; decide +kernel) (by rw [hrules]; decide +kernel)
  exact ⟨htext, hplaces ⟨str "é", str "ée", by decide⟩
    (by rw [hrules]; exact List.mem_singleton_self _) 3 (by decide +kernel)⟩

end

end GoClean.Bootstrap
