import GoClean.Bootstrap.Run
import GoClean.Item.Errors

/-!
# Laws of the texts

What a directive line is made of, and that what bootstrap reads off a tree
and takes from its options stands in one line and does not start with white
space.
-/

namespace GoClean.Bootstrap

open Go Rewriting

-- ---------------------------------------------------------------------------
-- The directive
-- ---------------------------------------------------------------------------

theorem hasPrefix_module (h : hasPrefix line "module" = true) :
    line = str "module" ++ line.drop 6 := by
  obtain ⟨rest, rfl⟩ := hasPrefix_iff.mp h
  have hlen : (str "module").length = 6 := by decide
  rw [List.drop_append_of_le_length (Nat.le_of_eq hlen.symm), ← hlen,
    List.drop_length, List.nil_append]

theorem directiveLine_eq_some (h : directiveLine line = some name) :
    ∃ gap tail, line = str "module" ++ (gap ++ (name ++ tail)) ∧ gap ≠ [] ∧
    (∀ b ∈ gap, isBlank b = true) ∧
      name ≠ [] ∧ (∀ b ∈ name, isNameByte b = true) ∧ ∀ b, tail.head? = some b →
      isNameByte b = false := by
  simp only [directiveLine, Option.ite_none_right_eq_some, Bool.and_eq_true, Option.some.injEq] at h
  obtain ⟨⟨⟨hword, hgap⟩, hname⟩, rfl⟩ := h
  set rest := (line.drop 6).dropWhile isBlank with hrest
  refine ⟨(line.drop 6).takeWhile isBlank, rest.dropWhile isNameByte, ?_, ?_, ?_, ?_, ?_, ?_⟩
  · rw [List.takeWhile_append_dropWhile, hrest, List.takeWhile_append_dropWhile]
    exact hasPrefix_module hword
  · simpa using hgap
  · exact fun b hb => List.mem_takeWhile_imp hb
  · simpa using hname
  · exact fun b hb => List.mem_takeWhile_imp hb
  · intro b hb
    have h := List.head?_dropWhile_not isNameByte rest
    rwa [hb] at h

theorem isNameByte_of_isAlnum (h : isAlnum b = true) : isNameByte b = true := by
  have hall : ∀ b, isAlnum b = true → isNameByte b = true := forall_byte (by decide +kernel)
  exact hall b h

-- The segments of a module path.

theorem getLastD_isInfix (module : GoString) : (module.splitOn 47).getLastD [] <:+: module := by
  rw [List.getLastD_eq_getLast?]
  cases hlast : (List.splitOn 47 module).getLast? with
  | none => exact List.nil_infix
  | some part => exact infix_of_mem_splitOn (List.mem_of_getLast? hlast)

theorem getD_isInfix (module : GoString) (i : Nat) : (module.splitOn 47).getD i [] <:+: module := by
  rw [List.getD_eq_getElem?_getD]
  cases hpart : (List.splitOn 47 module)[i]? with
  | none => exact List.nil_infix
  | some part => exact infix_of_mem_splitOn (List.mem_of_getElem? hpart)

theorem projectSlug_isInfix (module : GoString) : projectSlug module <:+: module := by
  simp only [projectSlug]
  split_ifs
  · exact getD_isInfix module _
  · exact getLastD_isInfix module

theorem githubOwner_isInfix (module : GoString) : githubOwner module <:+: module := by
  simp only [githubOwner]
  split_ifs
  · exact getD_isInfix module 1
  · exact List.nil_infix

-- Titles.

theorem copyrightLine_isInfix (h : copyrightLine line = some holder) : holder <:+: line := by
  simp only [copyrightLine] at h
  set afterYear := ((line.drop 13).dropWhile isBlank).dropWhile isNonSpace with hafter
  have hsuffix : afterYear <:+ line :=
    (List.dropWhile_suffix _).trans ((List.dropWhile_suffix _).trans (List.drop_suffix 13 line))
  refine List.IsInfix.trans ?_ hsuffix.isInfix
  set tail := afterYear.dropWhile isBlank
  have htail : tail <:+ afterYear := List.dropWhile_suffix _
  set body := if tail.getLast? = some 13 then tail.dropLast else tail with hcut
  have hbody : body <+: tail := by
    rw [hcut]
    split_ifs
    · exact List.dropLast_prefix tail
    · exact List.prefix_rfl
  clear_value body
  split_ifs at h
  · obtain ⟨c, hc, rfl⟩ := Option.map_eq_some_iff.mp h
    have hlast : [c] <:+: afterYear.takeWhile isBlank :=
      List.singleton_infix_iff _ _ |>.mpr (List.mem_of_getLast? hc)
    exact hlast.trans (List.takeWhile_prefix _).isInfix
  · cases h
    exact ((List.rdropWhile_prefix _ _).trans hbody).isInfix.trans htail.isInfix

theorem discoverCopyrightHolder_cases (tree : Tree) : discoverCopyrightHolder tree = [] ∨
    ∃ text line holder, textOf tree (str "LICENSE") = some text ∧ line ∈ lines text ∧
    holder <:+: line ∧
      discoverCopyrightHolder tree = trimSpace holder := by
  unfold discoverCopyrightHolder
  split
  · exact .inl rfl
  · rename_i holder hholder
    obtain ⟨text, htext, hholder⟩ := Option.bind_eq_some_iff.mp hholder
    obtain ⟨line, hline, hholder⟩ := List.exists_of_findSome?_eq_some hholder
    exact .inr ⟨text, line, holder, htext, hline, copyrightLine_isInfix hholder, rfl⟩

theorem append_prefix_of_drop {u v s : GoString} (hu : u <+: s) (hv : v <+: s.drop u.length) :
    u ++ v <+: s := by
  obtain ⟨rest, rfl⟩ := hu
  rw [List.drop_left] at hv
  exact (List.prefix_append_right_inj u).mpr hv

theorem domainLabel_isPrefix (s : GoString) : domainLabel s <+: s := by
  unfold domainLabel
  split_ifs
  · exact (List.rdropWhile_prefix _ _).trans
      ((List.take_prefix _ _).trans (List.takeWhile_prefix _))
  · exact List.nil_prefix

theorem domainTail_isPrefix (fuel : Nat) (s : GoString) : domainTail fuel s <+: s := by
  fun_induction domainTail fuel s with
  | case1 fuel s label hlabel => exact List.nil_prefix
  | case2 fuel s label hlabel ih =>
    rw [List.cons_append, List.cons_prefix_cons]
    exact ⟨rfl, append_prefix_of_drop (domainLabel_isPrefix s) ih⟩
  | case3 => exact List.nil_prefix

theorem emailDomain_isPrefix (h : emailDomain s = some domain) : domain <+: s := by
  simp only [emailDomain, Option.ite_none_left_eq_some, Option.some.injEq] at h
  rw [← h.2]
  exact append_prefix_of_drop (domainLabel_isPrefix s) (domainTail_isPrefix _ _)

/-- An address is a run of local bytes, an at sign and a domain, as they stand
in the text. -/
theorem mem_findEmails (h : email ∈ findEmails fuel text) : email <:+: text ∧
    ∃ name after domain, email = name ++ 64 :: domain ∧ (∀ b ∈ name, isLocalByte b = true) ∧
      emailDomain after = some domain := by
  induction fuel generalizing text with
  | zero => simp [findEmails] at h
  | succ fuel ih =>
    cases text with
    | nil => simp [findEmails] at h
    | cons c rest =>
      -- what is searched further on is a later part of the text
      have hlater : ∀ {s : GoString}, s <:+ c :: rest → email ∈ findEmails fuel s →
        email <:+: c :: rest ∧
          ∃ name after domain, email = name ++ 64 :: domain ∧ (∀ b ∈ name, isLocalByte b = true) ∧
            emailDomain after = some domain :=
        fun hs h => ⟨(ih h).1.trans hs.isInfix, (ih h).2⟩
      simp only [findEmails] at h
      split_ifs at h with hname
      · exact hlater (List.suffix_cons _ _) h
      · have hdrop := List.drop_suffix ((c :: rest).takeWhile isLocalByte).length (c :: rest)
        split at h
        · rename_i after hat
          rw [hat] at hdrop
          have hafter := (List.suffix_cons 64 after).trans hdrop
          split at h
          · rename_i domain hdomain
            rcases List.mem_cons.mp h with rfl | h
            · refine ⟨List.IsPrefix.isInfix (append_prefix_of_drop (List.takeWhile_prefix _) ?_), _,
                after, domain, rfl, fun b hb => List.mem_takeWhile_imp hb, hdomain⟩
              rw [hat, List.cons_prefix_cons]
              exact ⟨rfl, emailDomain_isPrefix hdomain⟩
            · exact hlater ((List.drop_suffix _ _).trans hafter) h
          · exact hlater hafter h
        · exact hlater hdrop h

theorem mem_discoverEmails (h : email ∈ discoverEmails tree) :
    ∃ path text, textOf tree path = some text ∧ email ∈ emailPattern text := by
  simp only [discoverEmails, List.mem_insertionSort, List.mem_dedup, List.mem_flatMap] at h
  obtain ⟨path, -, h⟩ := h
  cases htext : textOf tree path with
  | none => simp [htext] at h
  | some text =>
    rw [htext] at h
    exact ⟨path, text, htext, h⟩

theorem startsWith_bytes (h : startsWith first more s = true) (hb : b ∈ s) :
    first b = true ∨ more b = true := by
  cases s with
  | nil => cases hb
  | cons c rest =>
    simp only [startsWith, Bool.and_eq_true, List.all_eq_true] at h
    rcases List.mem_cons.mp hb with rfl | hb
    · exact .inl h.1
    · exact .inr (h.2 b hb)

theorem isNameByte_pathSegment {punctuation : GoString}
    (hpunctuation : ∀ b ∈ punctuation, isNameByte b = true)
    (h : pathSegment punctuation part = true) : ∀ b ∈ part, isNameByte b = true := by
  intro b hb
  have hbyte := startsWith_bytes h hb
  simp only [Bool.or_eq_true, List.contains_iff_mem] at hbyte
  rcases hbyte with h | h | h
  · exact isNameByte_of_isAlnum h
  · exact isNameByte_of_isAlnum h
  · exact hpunctuation b h

theorem isNameByte_modulePathPattern (h : modulePathPattern module = true) :
    ∀ b ∈ module, isNameByte b = true := by
  refine forall_of_splitOn 47 (by decide) fun part hpart => ?_
  unfold modulePathPattern at h
  split at h
  · rename_i first later hsplit
    simp only [Bool.and_eq_true, List.all_eq_true] at h
    rw [hsplit] at hpart
    rcases List.mem_cons.mp hpart with rfl | hpart
    · exact isNameByte_pathSegment (List.all_eq_true.mp (by decide)) h.1.1
    · exact isNameByte_pathSegment (List.all_eq_true.mp (by decide)) (h.2 part hpart)
  · cases h

theorem isNameByte_slugPattern (h : slugPattern slug = true) : ∀ b ∈ slug, isNameByte b = true := by
  have hbyte : ∀ b, isLowerAlnum b = true ∨ (isLowerAlnum b || b == 95 || b == 45) = true →
      isNameByte b = true :=
    forall_byte (by decide +kernel)
  exact fun b hb => hbyte b (startsWith_bytes h hb)

theorem not_mem_of_not_hasControl (h : hasControl s = false) : 10 ∉ s := by
  intro hmem
  exact List.any_eq_false.mp h [10] (ascii_chunk hmem (by decide)) (by decide +kernel)

theorem ne_lineEnd_dotAtom (h : dotAtom s = true) : ∀ b ∈ s, b ≠ 10 := by
  have hbyte : ∀ b, isAtextByte b = true → b ≠ 10 := forall_byte (by decide +kernel)
  simp only [dotAtom, Bool.and_eq_true, List.all_eq_true] at h
  exact forall_of_splitOn 46 (by decide) fun atom hatom b hb => hbyte b ((h.2 atom hatom).2 b hb)

theorem ne_lineEnd_parsesAsItself (h : parsesAsItself email = true) : ∀ b ∈ email, b ≠ 10 := by
  refine forall_of_splitOn 64 (by decide) fun part hpart => ?_
  unfold parsesAsItself at h
  split at h
  · rename_i name domain hsplit
    rw [Bool.and_eq_true] at h
    rw [hsplit, List.mem_cons, List.mem_singleton] at hpart
    rcases hpart with rfl | rfl
    · exact ne_lineEnd_dotAtom h.1
    · exact ne_lineEnd_dotAtom h.2
  · cases h

structure Accepted (opts : Options) : Prop where
  module_ne_nil : opts.module ≠ []
  module_pattern : modulePathPattern opts.module = true
  module_bytes : ∀ b ∈ opts.module, isNameByte b = true
  slug_bytes : ∀ b ∈ opts.slug, isNameByte b = true
  author_line : 10 ∉ opts.author
  email_line : 10 ∉ opts.email

theorem accepted_of_validateOptions (h : validateOptions opts = .ok u) : Accepted opts := by
  simp only [validateOptions, bind_ok, reject_ok, Bool.or_eq_false_iff, Bool.and_eq_false_iff,
    Bool.not_eq_false', List.isEmpty_eq_false_iff, List.isEmpty_iff] at h
  obtain ⟨_, hmodule, _, -, _, ⟨hpath, -⟩, _, -, _, hslug, _, -, _, hauthor, hemail⟩ := h
  refine ⟨hmodule, hpath, isNameByte_modulePathPattern hpath, isNameByte_slugPattern hslug, ?_, ?_⟩
  · rcases hauthor with hnil | ⟨-, hcontrol⟩
    · simp [hnil]
    · exact not_mem_of_not_hasControl hcontrol
  · rcases hemail with hnil | ⟨hparses, -⟩
    · simp [hnil]
    · exact fun hmem => ne_lineEnd_parsesAsItself hparses 10 hmem rfl

end GoClean.Bootstrap
