import GoClean.Go.Strings

/-!
# Route labels

`NormalizeRoute` of `pkg/metrics`, which decides what a request's route adds
to the label values. A label is `unmatched`, `/`, or segments that the
normalisation of a segment leaves alone, so that it leaves the label alone.
-/

namespace GoClean.Metrics

open Go

def unknownRoute : GoString := str "unmatched"

def maxRouteBytes : Nat := 128

def isAlphanumeric (b : UInt8) : Bool :=
  decide (97 ≤ b ∧ b ≤ 122) || decide (65 ≤ b ∧ b ≤ 90) || isDigit b

def placeholderByte (b : UInt8) : Bool := isAlphanumeric b || b == 95 || b == 45

def literalByte (b : UInt8) : Bool := isAlphanumeric b || (str "._~-").contains b

def validPlaceholder (value : GoString) : Bool := !value.isEmpty && value.all placeholderByte

def validLiteral (value : GoString) : Bool := value.all literalByte && !value.isEmpty

def isHexDigit (r : Nat) : Bool :=
  decide (97 ≤ r ∧ r ≤ 102) || decide (65 ≤ r ∧ r ≤ 70) || decide (48 ≤ r ∧ r ≤ 57)

/-- All digits, or hexadecimal digits and hyphens with a hyphen where a UUID
has one. -/
def looksLikeRawSegment (value : GoString) : Bool :=
  if value.all isDigit then true
  else if value.length ≠ 36 ∨ value[8]? ≠ some 45 ∨ value[13]? ≠ some 45 ∨ value[18]? ≠ some 45 ∨
      value[23]? ≠ some 45 then false
  else (chunks value).all fun c => rune c == 45 || isHexDigit (rune c)

/-- One round of the loop of `NormalizeRoute`: the segment it leaves, or `none`
where it gives up the route. -/
def normalizeSegment (segment : GoString) : Option GoString :=
  if segment = [] then none
  else if segment = str "." ∨ segment = str ".." then none
  -- `:name` and `*name`
  else if segment.head? = some 58 ∨ segment.head? = some 42 then
    if validPlaceholder (segment.drop 1) then some segment else none
  -- `{name}`, which is written as `:name`
  else if segment.head? = some 123 ∧ segment.getLast? = some 125 then
    if validPlaceholder (segment.drop 1).dropLast then some (58 :: (segment.drop 1).dropLast)
      else none
  else if !validLiteral segment || looksLikeRawSegment segment then none
  else some segment

def normalizeSegments (route : GoString) : GoString :=
  match (route.splitOn 47).mapM normalizeSegment with
  | none => unknownRoute
  | some segments => 47 :: join 47 segments

def trimSlash (route : GoString) : GoString := if route.head? = some 47 then route.drop 1 else route

def normalizeRoute (route : GoString) : GoString :=
  let route := trimSpace route
  if route = [] ∨ route = unknownRoute then unknownRoute
  else if maxRouteBytes < route.length ∨ validString route = false ∨
    route.head? ≠ some 47 then unknownRoute
  else if route.any (fun b => (str "?#\r\n\t").contains b) ∨ containsString route (str "//") then
    unknownRoute
  else if route = str "/" then route
  else if route.getLast? = some 47 then normalizeSegments (trimSlash (route.rdropWhile (· == 47)))
  else normalizeSegments (trimSlash route)

variable {segment : GoString}

-- ---------------------------------------------------------------------------
-- Bytes
-- ---------------------------------------------------------------------------

def letters : GoString := str "ABCDEFGHIJKLMNOPQRSTUVWXYZabcdefghijklmnopqrstuvwxyz"
def digits : GoString := str "0123456789"
def hexDigits : GoString := str "0123456789abcdefABCDEF"

def nameBytes : GoString := letters ++ digits ++ str "_-"

def literalBytes : GoString := letters ++ digits ++ str "._~-"

def labelBytes : GoString := letters ++ digits ++ str "._~:*/-"

theorem isAlphanumeric_iff (b : UInt8) : isAlphanumeric b = true ↔ b ∈ letters ++ digits := by
  revert b
  exact forall_byte (by decide +kernel)

theorem placeholderByte_iff (b : UInt8) : placeholderByte b = true ↔ b ∈ nameBytes := by
  have hrest : str "_-" = [95, 45] := by decide
  rw [nameBytes, List.mem_append, ← isAlphanumeric_iff, hrest]
  simp [placeholderByte, or_assoc]

theorem literalByte_iff (b : UInt8) : literalByte b = true ↔ b ∈ literalBytes := by
  rw [literalBytes, List.mem_append, ← isAlphanumeric_iff, literalByte, Bool.or_eq_true,
    List.contains_iff_mem]

theorem isDigit_iff (b : UInt8) : isDigit b = true ↔ b ∈ digits := by
  revert b
  exact forall_byte (by decide +kernel)

theorem isHexDigit_iff (b : UInt8) : isHexDigit b.toNat = true ↔ b ∈ hexDigits := by
  revert b
  exact forall_byte (by decide +kernel)

theorem label_of_name : ∀ b ∈ nameBytes, b ∈ labelBytes ∧ b ≠ 47 := by
  decide +kernel

theorem label_of_literal :
    ∀ b ∈ literalBytes, b ∈ labelBytes ∧ b ≠ 47 ∧ b ≠ 58 ∧ b ≠ 42 ∧ b ≠ 123 := by
  decide +kernel

theorem ascii_of_label : ∀ b ∈ labelBytes,
    (b < 0x80 ∧ isSpace b.toNat = false) ∧ (str "?#\r\n\t").contains b = false := by
  decide +kernel

-- ---------------------------------------------------------------------------
-- Segments
-- ---------------------------------------------------------------------------

def Placeholder (segment : GoString) : Prop :=
  ∃ mark name, segment = mark :: name ∧ (mark = 58 ∨ mark = 42) ∧ name ≠ [] ∧
    ∀ b ∈ name, b ∈ nameBytes

structure Accepted (segment : GoString) : Prop where
  valid : validLiteral segment = true
  not_raw : looksLikeRawSegment segment = false
  ne_dot : segment ≠ str "."
  ne_dots : segment ≠ str ".."

theorem validPlaceholder_iff :
    validPlaceholder name = true ↔ name ≠ [] ∧ ∀ b ∈ name, b ∈ nameBytes := by
  simp [validPlaceholder, placeholderByte_iff]

theorem validLiteral_iff :
    validLiteral segment = true ↔ segment ≠ [] ∧ ∀ b ∈ segment, b ∈ literalBytes := by
  simp [validLiteral, literalByte_iff, and_comm]

theorem Placeholder.bytes (h : Placeholder segment) :
    segment ≠ [] ∧ ∀ b ∈ segment, b ∈ labelBytes ∧ b ≠ 47 := by
  obtain ⟨mark, name, rfl, hmark, -, hname⟩ := h
  refine ⟨List.cons_ne_nil mark name, List.forall_mem_cons.mpr ⟨?_, fun b hb => ?_⟩⟩
  · rcases hmark with rfl | rfl <;> decide
  · exact label_of_name b (hname b hb)

theorem Accepted.bytes (h : Accepted segment) :
    segment ≠ [] ∧ ∀ b ∈ segment, b ∈ labelBytes ∧ b ≠ 47 := by
  obtain ⟨hne, hbytes⟩ := validLiteral_iff.mp h.valid
  refine ⟨hne, fun b hb => ?_⟩
  obtain ⟨hlabel, hslash, -⟩ := label_of_literal b (hbytes b hb)
  exact ⟨hlabel, hslash⟩

theorem normalizeSegment_some (h : normalizeSegment segment = some kept) :
    kept.length ≤ segment.length ∧ (Placeholder kept ∨ Accepted kept) := by
  unfold normalizeSegment at h
  split_ifs at h with hempty hdots hmark hname hbraces hname hliteral
  · cases h
    refine ⟨le_rfl, .inl ?_⟩
    cases segment with
    | nil => exact absurd rfl hempty
    | cons mark name =>
      rw [List.head?_cons, Option.some.injEq, Option.some.injEq] at hmark
      exact ⟨mark, name, rfl, hmark, validPlaceholder_iff.mp hname⟩
  · cases h
    have hpos := List.length_pos_iff.mpr hempty
    refine ⟨?_, .inl ⟨58, _, rfl, .inl rfl, validPlaceholder_iff.mp hname⟩⟩
    rw [List.length_cons, List.length_dropLast, List.length_drop]
    omega
  · cases h
    rw [not_or] at hdots
    rw [Bool.or_eq_true, not_or, Bool.not_eq_true, Bool.not_eq_true, Bool.not_eq_false'] at hliteral
    exact ⟨le_rfl, .inr ⟨hliteral.1, hliteral.2, hdots.1, hdots.2⟩⟩

theorem normalizeSegment_of_placeholder (h : Placeholder segment) :
    normalizeSegment segment = some segment := by
  obtain ⟨mark, name, rfl, hmark, hname⟩ := h
  have hdots : ¬(mark :: name = str "." ∨ mark :: name = str "..") := by
    rintro (hdot | hdot) <;> obtain ⟨rfl, -⟩ := List.cons.inj hdot <;> revert hmark <;> decide
  have hhead : (mark :: name).head? = some 58 ∨ (mark :: name).head? = some 42 := by
    rwa [List.head?_cons, Option.some.injEq, Option.some.injEq]
  rw [normalizeSegment, if_neg (List.cons_ne_nil mark name), if_neg hdots, if_pos hhead,
    List.drop_one, List.tail_cons, if_pos (validPlaceholder_iff.mpr hname)]

theorem normalizeSegment_of_accepted (h : Accepted segment) :
    normalizeSegment segment = some segment := by
  obtain ⟨hne, hbytes⟩ := validLiteral_iff.mp h.valid
  -- a literal starts neither a placeholder nor a brace
  have hhead : ∀ b, segment.head? = some b → b ≠ 58 ∧ b ≠ 42 ∧ b ≠ 123 := by
    intro b hb
    obtain ⟨-, -, hothers⟩ := label_of_literal b (hbytes b (List.mem_of_head? hb))
    exact hothers
  have hmark : ¬(segment.head? = some 58 ∨ segment.head? = some 42) :=
    fun hmark => hmark.elim (fun hb => (hhead _ hb).1 rfl) fun hb => (hhead _ hb).2.1 rfl
  have hbraces : ¬(segment.head? = some 123 ∧ segment.getLast? = some 125) :=
    fun hb => (hhead _ hb.1).2.2 rfl
  have hliteral : ¬(!validLiteral segment || looksLikeRawSegment segment) = true := by
    rw [h.valid, h.not_raw]
    decide
  rw [normalizeSegment, if_neg hne, if_neg (not_or.mpr ⟨h.ne_dot, h.ne_dots⟩), if_neg hmark,
    if_neg hbraces, if_neg hliteral]

-- ---------------------------------------------------------------------------
-- Routes
-- ---------------------------------------------------------------------------

def Kept (segment : GoString) : Prop := Placeholder segment ∨ Accepted segment

theorem Kept.bytes (h : Kept segment) : segment ≠ [] ∧ ∀ b ∈ segment, b ∈ labelBytes ∧ b ≠ 47 :=
  h.elim Placeholder.bytes Accepted.bytes

theorem normalizeSegment_of_kept (h : Kept segment) : normalizeSegment segment = some segment :=
  h.elim normalizeSegment_of_placeholder normalizeSegment_of_accepted

inductive Label : GoString → Prop
  | unknown : Label unknownRoute
  | root : Label (str "/")
  | segments : segments ≠ [] → (∀ segment ∈ segments, Kept segment) →
      (47 :: join 47 segments).length ≤ maxRouteBytes → Label (47 :: join 47 segments)

theorem mapM_eq_some {f : α → Option β} {l : List α} {l' : List β} :
    l.mapM f = some l' ↔ List.Forall₂ (fun a b => f a = some b) l l' := by
  induction l generalizing l' with
  | nil => simp [eq_comm]
  | cons a l ih =>
    rw [List.mapM_cons, List.forall₂_cons_left_iff]
    simp only [Option.bind_eq_bind, Option.bind_eq_some_iff, Option.pure_def, Option.some.injEq, ih]
    constructor
    · rintro ⟨b, hb, rest, hrest, rfl⟩
      exact ⟨b, rest, hb, hrest, rfl⟩
    · rintro ⟨b, rest, hb, hrest, rfl⟩
      exact ⟨b, hb, rest, hrest, rfl⟩

theorem kept_of_rounds
    (h : List.Forall₂ (fun segment kept => normalizeSegment segment = some kept) segments left) :
    ∀ kept ∈ left, Kept kept := by
  induction h with
  | nil => exact fun kept hkept => absurd hkept List.not_mem_nil
  | cons hround _ ih => exact List.forall_mem_cons.mpr ⟨(normalizeSegment_some hround).2, ih⟩

theorem label_normalizeSegments (hlength : route.length < maxRouteBytes) :
    Label (normalizeSegments route) := by
  unfold normalizeSegments
  cases hmap : (route.splitOn 47).mapM normalizeSegment with
  | none => exact .unknown
  | some segments =>
    have hrounds := mapM_eq_some.mp hmap
    have hshorter : (join 47 segments).length ≤ (join 47 (route.splitOn 47)).length :=
      length_join_le (hrounds.imp fun _ _ hround => (normalizeSegment_some hround).1)
    rw [join_splitOn] at hshorter
    refine .segments ?_ (kept_of_rounds hrounds) (Nat.succ_le_of_lt (hshorter.trans_lt hlength))
    rintro rfl
    exact List.splitOn_ne_nil _ _ (List.forall₂_nil_right_iff.mp hrounds)

theorem length_trimSlash_le (route : GoString) : (trimSlash route).length ≤ route.length := by
  unfold trimSlash
  split_ifs
  · exact List.length_drop ▸ Nat.sub_le _ _
  · exact le_rfl

theorem length_trimSlash (h : route.head? = some 47) : (trimSlash route).length < route.length := by
  cases route with
  | nil => cases h
  | cons first rest =>
    rw [trimSlash, if_pos h, List.drop_one, List.tail_cons, List.length_cons]
    exact Nat.lt_succ_self _

theorem length_trimRight {route : GoString} (h : route.getLast? = some 47) :
    (route.rdropWhile (· == 47)).length < route.length := by
  obtain ⟨before, rfl⟩ := List.getLast?_eq_some_iff.mp h
  rw [List.rdropWhile_concat_pos _ _ _ (by decide), List.length_append, List.length_singleton]
  exact Nat.lt_succ_of_le (List.rdropWhile_prefix _ _).length_le

theorem label_normalizeRoute (route : GoString) : Label (normalizeRoute route) := by
  unfold normalizeRoute
  simp only
  split_ifs with hempty hshape hbytes hroot hlast
  · exact .unknown
  · exact .unknown
  · exact .unknown
  · rw [hroot]
    exact .root
  · push Not at hshape
    exact label_normalizeSegments
      (((length_trimSlash_le _).trans_lt (length_trimRight hlast)).trans_le hshape.1)
  · push Not at hshape
    exact label_normalizeSegments ((length_trimSlash hshape.2.2).trans_le hshape.1)

-- ---------------------------------------------------------------------------
-- Labels
-- ---------------------------------------------------------------------------

section
variable {segments : List GoString} (hne : segments ≠ [])
    (hkept : ∀ segment ∈ segments, Kept segment)
include hkept

theorem label_bytes : ∀ b ∈ 47 :: join 47 segments, b ∈ labelBytes := by
  refine List.forall_mem_cons.mpr ⟨by decide, fun b hb => ?_⟩
  rcases mem_join hb with rfl | ⟨segment, hsegment, hb⟩
  · decide
  · exact ((hkept segment hsegment).bytes.2 b hb).1

include hne

theorem splitOn_segments : (join 47 segments).splitOn 47 = segments :=
  splitOn_join (fun segment hsegment hslash => ((hkept segment hsegment).bytes.2 47 hslash).2 rfl)
    hne

theorem splitOn_label : (47 :: join 47 segments).splitOn 47 = [] :: segments := by
  have hsplit := List.splitOn_append_cons_self (a := 47) [] (join 47 segments)
  rwa [splitOn_segments hne hkept, List.nil_append, List.splitOn_nil,
    List.singleton_append] at hsplit

theorem slash_in_label (h : 47 :: join 47 segments = before ++ 47 :: behind) :
    behind ≠ [] ∧ behind.head? ≠ some 47 := by
  have hsplit := splitOn_label hne hkept
  rw [h, List.splitOn_append_cons_self] at hsplit
  obtain ⟨first, more, hbefore⟩ := List.exists_cons_of_ne_nil (List.splitOn_ne_nil 47 before)
  rw [hbefore, List.cons_append] at hsplit
  obtain ⟨-, hsegments⟩ := List.cons.inj hsplit
  have hempty : [] ∉ behind.splitOn 47 := fun hmem =>
    (hkept [] (hsegments ▸ List.mem_append_right more hmem)).bytes.1 rfl
  refine ⟨?_, fun hhead => hempty ?_⟩
  · rintro rfl
    exact hempty (List.mem_singleton_self _)
  · obtain ⟨rest, rfl⟩ := List.head?_eq_some_iff.mp hhead
    have hsplit := List.splitOn_append_cons_self (a := 47) [] rest
    rw [List.nil_append, List.splitOn_nil, List.singleton_append] at hsplit
    rw [hsplit]
    exact List.mem_cons_self

theorem label_ne_root : 47 :: join 47 segments ≠ str "/" := by
  have hslash : str "/" = [47] := by decide
  have hfirst : 47 :: join 47 segments = [] ++ 47 :: join 47 segments := rfl
  rw [hslash]
  intro h
  exact (slash_in_label hne hkept hfirst).1 (List.cons.inj h).2

theorem label_getLast_ne : (47 :: join 47 segments).getLast? ≠ some 47 := by
  intro h
  obtain ⟨before, h⟩ := List.getLast?_eq_some_iff.mp h
  exact (slash_in_label hne hkept h).1 rfl

theorem label_plain : ¬((47 :: join 47 segments).any (fun b => (str "?#\r\n\t").contains b) = true ∨
    containsString (47 :: join 47 segments) (str "//") = true) := by
  rintro (h | h)
  · obtain ⟨b, hb, hquery⟩ := List.any_eq_true.mp h
    rw [(ascii_of_label b (label_bytes hkept b hb)).2] at hquery
    cases hquery
  · have hslashes : str "//" = [47, 47] := by decide
    rw [containsString_iff, hslashes] at h
    obtain ⟨before, rest, h⟩ := h
    rw [List.append_assoc] at h
    exact (slash_in_label hne hkept h.symm).2 rfl

theorem normalizeSegments_label :
    normalizeSegments (trimSlash (47 :: join 47 segments)) = 47 :: join 47 segments := by
  have htrim : trimSlash (47 :: join 47 segments) = join 47 segments := by simp [trimSlash]
  have hrounds : segments.mapM normalizeSegment = some segments :=
    mapM_eq_some.mpr (List.forall₂_same.mpr fun segment hsegment => normalizeSegment_of_kept
      (hkept segment hsegment))
  rw [htrim, normalizeSegments, splitOn_segments hne hkept, hrounds]

theorem normalizeRoute_of_segments (hlength : (47 :: join 47 segments).length ≤ maxRouteBytes) :
    normalizeRoute (47 :: join 47 segments) = 47 :: join 47 segments := by
  have hascii : ∀ b ∈ 47 :: join 47 segments, b < 0x80 ∧ isSpace b.toNat = false :=
    fun b hb => (ascii_of_label b (label_bytes hkept b hb)).1
  have htrim : trimSpace (47 :: join 47 segments) = 47 :: join 47 segments :=
    trimSpace_of_ascii hascii
  have hvalid : validString (47 :: join 47 segments) = true :=
    validString_of_ascii fun b hb => (hascii b hb).1
  have hunknown : ¬(47 :: join 47 segments = [] ∨ 47 :: join 47 segments = unknownRoute) := by
    rintro (h | h)
    · cases h
    · exact absurd (List.cons.inj h).1 (by decide)
  have hshape : ¬(maxRouteBytes < (47 :: join 47 segments).length ∨
    validString (47 :: join 47 segments) = false ∨
      (47 :: join 47 segments).head? ≠ some 47) := by
    rw [hvalid]
    simp only [List.head?_cons, ne_eq, not_true_eq_false, or_false, Bool.true_eq_false, Nat.not_lt]
    exact hlength
  unfold normalizeRoute
  simp only [htrim]
  rw [if_neg hunknown, if_neg hshape, if_neg (label_plain hne hkept),
    if_neg (label_ne_root hne hkept),
    if_neg (label_getLast_ne hne hkept), normalizeSegments_label hne hkept]

end

theorem normalizeRoute_of_label (h : Label label) : normalizeRoute label = label := by
  cases h with
  | unknown => decide +kernel
  | root => decide +kernel
  | segments hne hkept hlength => exact normalizeRoute_of_segments hne hkept hlength

-- ---------------------------------------------------------------------------
-- What a label shows
-- ---------------------------------------------------------------------------

/-- Five groups of hexadecimal digits with hyphens between them. -/
def UuidShaped (segment : GoString) : Prop :=
  ∃ a b c d e, segment = join 45 [a, b, c, d, e] ∧
    [a, b, c, d, e].map List.length = [8, 4, 4, 4, 12] ∧
    ∀ group ∈ [a, b, c, d, e], ∀ x ∈ group, x ∈ hexDigits

theorem UuidShaped.bytes (h : UuidShaped segment) : ∀ b ∈ segment, b = 45 ∨ b ∈ hexDigits := by
  obtain ⟨_, _, _, _, _, rfl, -, hhex⟩ := h
  intro b hb
  exact (mem_join hb).imp_right fun ⟨group, hgroup, hb⟩ => hhex group hgroup b hb

theorem ascii_of_hexDigit : ∀ b ∈ hexDigits, b < 0x80 := by
  decide +kernel

theorem UuidShaped.raw (h : UuidShaped segment) :
    segment ≠ [] ∧ looksLikeRawSegment segment = true := by
  have hbytes := h.bytes
  have hascii : ∀ b ∈ segment, b < 0x80 := by
    intro b hb
    rcases hbytes b hb with rfl | hhex
    · decide
    · exact ascii_of_hexDigit b hhex
  have hrunes : ((chunks segment).all fun c => rune c == 45 || isHexDigit (rune c)) = true := by
    rw [chunks_of_ascii hascii, List.all_map, List.all_eq_true]
    intro b hb
    rw [Function.comp_apply, rune_of_ascii (hascii b hb)]
    rcases hbytes b hb with rfl | hhex
    · rfl
    · rw [(isHexDigit_iff b).mpr hhex, Bool.or_true]
  obtain ⟨a, b, c, d, e, rfl, hlengths, -⟩ := h
  simp only [List.map_cons, List.map_nil, List.cons.injEq, and_true] at hlengths
  obtain ⟨ha, hb, hc, hd, he⟩ := hlengths
  have hjoin : join 45 [a, b, c, d, e] = a ++ 45 :: (b ++ 45 :: (c ++ 45 :: (d ++ 45 :: e))) := rfl
  have hdigits : (join 45 [a, b, c, d, e]).all isDigit = false := by
    refine List.all_eq_false.mpr ⟨45, ?_, by decide⟩
    rw [hjoin]
    exact List.mem_append_right a List.mem_cons_self
  have hshape : ¬((join 45 [a, b, c, d, e]).length ≠ 36 ∨ (join 45 [a, b, c, d, e])[8]? ≠ some 45 ∨
      (join 45 [a, b, c, d, e])[13]? ≠ some 45 ∨ (join 45 [a, b, c, d, e])[18]? ≠ some 45 ∨
      (join 45 [a, b, c, d, e])[23]? ≠ some 45) := by
    rw [hjoin]
    simp [ha, hb, hc, hd, he]
  refine ⟨join_ne_nil (List.ne_nil_of_length_pos (by omega)), ?_⟩
  rw [looksLikeRawSegment, hdigits, if_neg Bool.false_ne_true, if_neg hshape, hrunes]

/-- All digits. -/
def Numeric (segment : GoString) : Prop := segment ≠ [] ∧ ∀ b ∈ segment, b ∈ digits

theorem Numeric.raw (h : Numeric segment) : looksLikeRawSegment segment = true := by
  have hdigits : segment.all isDigit = true :=
    List.all_eq_true.mpr fun b hb => (isDigit_iff b).mpr (h.2 b hb)
  rw [looksLikeRawSegment, if_pos hdigits]

/-- Text that is no dot segment and identifies nothing. Its alphabet has neither
mark of a placeholder. -/
structure Literal (segment : GoString) : Prop where
  nonempty : segment ≠ []
  bytes : ∀ b ∈ segment, b ∈ literalBytes
  ne_dot : segment ≠ str "."
  ne_dots : segment ≠ str ".."
  not_numeric : ¬Numeric segment
  not_uuid : ¬UuidShaped segment

theorem Accepted.literal (h : Accepted segment) : Literal segment where
  nonempty := h.bytes.1
  bytes := (validLiteral_iff.mp h.valid).2
  ne_dot := h.ne_dot
  ne_dots := h.ne_dots
  not_numeric hraw := Bool.eq_false_iff.mp h.not_raw hraw.raw
  not_uuid hraw := Bool.eq_false_iff.mp h.not_raw hraw.raw.2

theorem Placeholder.not_raw (h : Placeholder segment) : ¬Numeric segment ∧ ¬UuidShaped segment := by
  obtain ⟨mark, name, rfl, hmark, -⟩ := h
  have hfirst : mark ∈ mark :: name := List.mem_cons_self
  constructor
  · intro hnumeric
    have hdigit := hnumeric.2 mark hfirst
    rcases hmark with rfl | rfl <;> revert hdigit <;> decide
  · intro huuid
    have hbyte := huuid.bytes mark hfirst
    rcases hmark with rfl | rfl <;> revert hbyte <;> decide

theorem Kept.not_raw (h : Kept segment) : ¬Numeric segment ∧ ¬UuidShaped segment :=
  h.elim Placeholder.not_raw fun h => ⟨h.literal.not_numeric, h.literal.not_uuid⟩

/-- A label other than `unmatched`. -/
structure RouteLabel (label : GoString) : Prop where
  length_le : label.length ≤ maxRouteBytes
  bytes : ∀ b ∈ label, b ∈ labelBytes
  shape : label = str "/" ∨ label.getLast? ≠ some 47 ∧ ∃ segments, segments ≠ [] ∧
    label = 47 :: join 47 segments ∧
    ∀ segment ∈ segments, 47 ∉ segment ∧ (Placeholder segment ∨ Literal segment)

theorem Label.routeLabel (h : Label label) : label = unknownRoute ∨ RouteLabel label := by
  cases h with
  | unknown => exact .inl rfl
  | root => exact .inr ⟨by decide, by decide +kernel, .inl rfl⟩
  | segments hne hkept hlength =>
    refine .inr ⟨hlength, label_bytes hkept, .inr ⟨fun hlast => ?_, _, hne, rfl,
      fun segment hsegment => ?_⟩⟩
    · obtain ⟨before, h⟩ := List.getLast?_eq_some_iff.mp hlast
      exact (slash_in_label hne hkept h).1 rfl
    · have hkept := hkept segment hsegment
      exact ⟨fun hslash => (hkept.bytes.2 47 hslash).2 rfl, hkept.imp_right Accepted.literal⟩

theorem Label.bytes (h : Label label) : ∀ b ∈ label, b ∈ labelBytes := by
  rcases h.routeLabel with rfl | h
  · decide +kernel
  · exact h.bytes

theorem Label.not_raw (h : Label label) :
    ∀ segment ∈ label.splitOn 47, ¬Numeric segment ∧ ¬UuidShaped segment := by
  have hempty : ¬Numeric [] ∧ ¬UuidShaped [] := ⟨fun h => h.1 rfl, fun h => h.raw.1 rfl⟩
  cases h with
  | unknown =>
    have hsplit : unknownRoute.splitOn 47 = [unknownRoute] := by decide
    have hliteral : Accepted unknownRoute := ⟨by decide, by decide +kernel, by decide, by decide⟩
    rw [hsplit]
    exact List.forall_mem_singleton.mpr (Kept.not_raw (.inr hliteral))
  | root =>
    have hsplit : (str "/").splitOn 47 = [[], []] := by decide
    rw [hsplit]
    exact List.forall_mem_cons.mpr ⟨hempty, List.forall_mem_singleton.mpr hempty⟩
  | segments hne hkept _ =>
    rw [splitOn_label hne hkept]
    exact List.forall_mem_cons.mpr ⟨hempty, fun segment hsegment =>
      (hkept segment hsegment).not_raw⟩

/-- Every route is counted under `unmatched` or a bounded label of a plain
shape, which is counted under itself. Neither has a query, a fragment, white
space or a segment that is a number or a UUID. -/
theorem normalizeRoute_canonical (route : GoString) :
    (normalizeRoute route = unknownRoute ∨ RouteLabel (normalizeRoute route)) ∧
      normalizeRoute (normalizeRoute route) = normalizeRoute route ∧
      (63 ∉ normalizeRoute route ∧ 35 ∉ normalizeRoute route ∧
        hasSpace (normalizeRoute route) = false) ∧
      ∀ segment ∈ (normalizeRoute route).splitOn 47, ¬Numeric segment ∧ ¬UuidShaped segment := by
  have hlabel := label_normalizeRoute route
  have hascii := fun b hb => (ascii_of_label b (hlabel.bytes b hb)).1
  refine ⟨hlabel.routeLabel, normalizeRoute_of_label hlabel, ⟨?_, ?_, ?_⟩, hlabel.not_raw⟩
  · exact fun hquery => absurd (hlabel.bytes 63 hquery) (by decide)
  · exact fun hfragment => absurd (hlabel.bytes 35 hfragment) (by decide)
  · rw [hasSpace, chunks_of_ascii fun b hb => (hascii b hb).1, List.any_map, List.any_eq_false]
    intro b hb
    rw [Function.comp_apply, spaceChunk, rune_of_ascii (hascii b hb).1, (hascii b hb).2]
    exact Bool.false_ne_true

example : normalizeRoute (str " /items/\x7bid\x7d/ ") = str "/items/:id" := by decide +kernel

example : normalizeRoute (str "/items/123") = unknownRoute := by decide +kernel

end GoClean.Metrics
