import GoClean.Bootstrap.Module

/-!
# A second run

A run with the same options reads its metadata off the tree the first one
left. It has nothing to do when what it reads agrees with the options, and
among these the options agree with one another: the slug and the owner are
read off the module path.
-/

namespace GoClean.Bootstrap

open Go Rewriting

/-- Nothing that is replaced stands in a text file. -/
def Quiet (rules : List (Rule UInt8)) (tree : Tree) : Prop :=
  ∀ path text, textOf tree path = some text → ∀ r ∈ rules, ¬r.old <:+: text

/-- What is read off the tree is what the options ask for. An owner that is
written in the place of itself does no harm as long as it stands in no link
and no handle. -/
structure Settled (opts : Options) (tree : Tree) : Prop where
  module : ∃ goMod, tree.lookup (str "go.mod") = some goMod ∧
    moduleDirective goMod.data = some opts.module
  slug : projectSlug opts.module = opts.slug
  owner : githubOwner opts.module = [] ∨ githubOwner opts.module = newOwner opts ∨
    githubOwner opts.module = plainOwner opts ∧ ∀ path text, textOf tree path = some text →
      ¬str "github.com/" ++ githubOwner opts.module <:+: text ∧
      ¬str "@" ++ githubOwner opts.module <:+: text
  author : discoverCopyrightHolder tree = [] ∨ plainOwner opts = [] ∨
    discoverCopyrightHolder tree = plainOwner opts
  emails : discoverEmails tree = if opts.email = [] then [] else [opts.email]

/-- Replacements that cancel: a file comes out as it was although a text that
is replaced stands in it. -/
def Cancels (opts : Options) (tree : Tree) : Prop :=
  ∃ found rules path text, readMetadata tree = .ok found ∧ makeReplacements found opts = .ok rules ∧
    textOf tree path = some text ∧ (∃ r ∈ rules, r.old <:+: text) ∧ replaceOnce text rules = text

section
variable {opts : Options} {tree : Tree} {found : Metadata} {rules : List (Rule UInt8)}

theorem run_ok : run opts tree = .ok result ↔ ∃ found rules, readMetadata tree = .ok found ∧
    makeReplacements found opts = .ok rules ∧
    (rewrite tree (collectChanges tree rules), collectChanges tree rules) = result := by
  simp only [run, bind_ok, pure_ok]
  constructor
  · rintro ⟨found, hfound, rules, hrules, rfl⟩
    exact ⟨found, rules, hfound, hrules, rfl⟩
  · rintro ⟨found, rules, hfound, hrules, rfl⟩
    exact ⟨found, hfound, rules, hrules, rfl⟩

theorem collectChanges_eq_empty
    (h : ∀ path text, textOf tree path = some text → replaceOnce text rules = text) :
    collectChanges tree rules = ∅ := by
  refine AssocMap.filterMap_eq_empty fun path file hfile => ?_
  cases htext : file.text with
  | none => rfl
  | some before =>
    have hsame := h path before (by rw [textOf, hfile, Option.bind_some, htext])
    simp [hsame]

theorem rewrite_empty (tree : Tree) : rewrite tree ∅ = tree :=
  AssocMap.filterMap_eq_self fun _ _ => rfl

theorem replaceOnce_of_collectChanges (h : collectChanges tree rules = ∅)
    (htext : textOf tree path = some text) :
    replaceOnce text rules = text := by
  obtain ⟨file, hfile, htext⟩ := Option.bind_eq_some_iff.mp htext
  have hnone : (collectChanges tree rules).lookup path = none := by
    rw [h]
    rfl
  rw [collectChanges, AssocMap.lookup_filterMap, hfile, Option.bind_some, htext] at hnone
  by_contra hchanged
  simp [Ne.symm hchanged] at hnone

theorem Quiet.replaceOnce (h : Quiet rules tree) (htext : textOf tree path = some text) :
    replaceOnce text rules = text :=
  scan_of_absent (h path text htext)

-- ---------------------------------------------------------------------------
-- What is read stands in the tree
-- ---------------------------------------------------------------------------

theorem newOwner_ne_nil (h : githubOwner opts.module ≠ []) : newOwner opts ≠ [] := by
  unfold newOwner
  split_ifs with howner
  · exact h
  · exact howner

theorem segments_ne_nil (h : modulePathPattern module = true) :
    1 < (module.splitOn 47).length ∧ ∀ part ∈ module.splitOn 47, part ≠ [] := by
  have hsegment : ∀ punctuation part : GoString, pathSegment punctuation part = true →
      part ≠ [] := by
    rintro punctuation _ hpart rfl
    cases hpart
  unfold modulePathPattern at h
  split at h
  · rename_i first later hsplit
    simp only [Bool.and_eq_true, Bool.not_eq_true', List.isEmpty_eq_false_iff,
      List.all_eq_true] at h
    obtain ⟨⟨hfirst, hne⟩, hlater⟩ := h
    rw [hsplit]
    refine ⟨Nat.succ_lt_succ (List.length_pos_iff.mpr hne),
      List.forall_mem_cons.mpr ⟨hsegment _ _ hfirst, ?_⟩⟩
    exact fun part hpart => hsegment _ _ (hlater part hpart)
  · cases h

theorem projectSlug_ne_nil (h : modulePathPattern module = true) : projectSlug module ≠ [] := by
  obtain ⟨hlen, hparts⟩ := segments_ne_nil h
  simp only [projectSlug]
  split_ifs
  · have hindex : (module.splitOn 47).length - 2 < (module.splitOn 47).length := by omega
    rw [List.getD_eq_getElem?_getD, List.getElem?_eq_getElem hindex, Option.getD_some]
    exact hparts _ (List.getElem_mem hindex)
  · have hne : module.splitOn 47 ≠ [] := List.ne_nil_of_length_pos (by omega)
    rw [List.getLastD_eq_getLast?, List.getLast?_eq_some_getLast hne]
    exact hparts _ (List.getLast_mem hne)

theorem infix_of_moduleDirective (h : moduleDirective text = some oldModule) :
    oldModule <:+: text := by
  obtain ⟨line, hline, hname⟩ := List.exists_of_findSome?_eq_some h
  obtain ⟨gap, tail, rfl, -⟩ := directiveLine_eq_some hname
  refine List.IsInfix.trans ⟨str "module" ++ gap, tail, ?_⟩ (infix_of_mem_splitOn hline)
  rw [List.append_assoc, List.append_assoc]

theorem infix_of_holder (h : discoverCopyrightHolder tree ≠ []) :
    ∃ path text, textOf tree path = some text ∧ discoverCopyrightHolder tree <:+: text := by
  rcases discoverCopyrightHolder_cases tree with hnone | ⟨text, line, holder,
    htext, hline, hholder, heq⟩
  · exact absurd hnone h
  · refine ⟨_, text, htext, heq ▸ ?_⟩
    exact (trimSpace_isInfix holder).trans (hholder.trans (infix_of_mem_splitOn hline))

-- ---------------------------------------------------------------------------
-- Settled trees
-- ---------------------------------------------------------------------------

/-- On a settled tree the run finds the options themselves, and nothing to
replace. -/
theorem Settled.quiet (howner : newOwner opts = [] ∨ ownerPattern (newOwner opts) = true)
    (h : Settled opts tree) :
    ∃ found rules, readMetadata tree = .ok found ∧ makeReplacements found opts = .ok rules ∧
    Quiet rules tree := by
  obtain ⟨goMod, hgoMod, hmodule⟩ := h.module
  have hrules : makeReplacements (metadataOf tree opts.module) opts =
      .ok (normalizeReplacements (allItems (metadataOf tree opts.module) opts)) := by
    refine makeReplacements_ok.mpr ⟨howner, ?_, ?_, rfl⟩
    · exact or_iff_not_imp_left.mpr newOwner_ne_nil
    · by_cases hemail : opts.email = []
      · exact .inl ⟨h.emails.trans (if_pos hemail), hemail⟩
      · exact .inr ⟨⟨opts.email, h.emails.trans (if_neg hemail)⟩, hemail⟩
  refine ⟨_, _, readMetadata_ok.mpr ⟨goMod, opts.module, hgoMod, hmodule, rfl⟩, hrules, ?_⟩
  intro path text htext r hr
  obtain ⟨hitem, hchanged⟩ := item_of_mem hrules hr
  rw [mem_allItems, mem_ownerItems, mem_authorItems] at hitem
  simp only [Replacement.mk.injEq, metadataOf] at hitem
  rcases hitem with ⟨hold, hnew⟩ | ⟨hold, hnew⟩ | ⟨hold, hnew⟩ | ⟨⟨hne, -⟩,
    howners⟩ | ⟨⟨hne, hplain⟩, hold, hnew⟩ |
    ⟨old, hmem, hold, hnew⟩
  · exact absurd (hold.trans hnew.symm) hchanged
  · exact absurd ((hold.trans h.slug).trans hnew.symm) hchanged
  · exact absurd ((hold.trans (by rw [h.slug])).trans hnew.symm) hchanged
  · rcases h.owner with hnil | hsame | ⟨hplain, habsent⟩
    · exact absurd hnil hne
    · rcases howners with ⟨hold, hnew⟩ | ⟨hold, hnew⟩ | ⟨hdiffer, -⟩
      · exact absurd ((hold.trans (by rw [hsame])).trans hnew.symm) hchanged
      · exact absurd ((hold.trans (by rw [hsame])).trans hnew.symm) hchanged
      · exact absurd hsame hdiffer
    · rcases howners with ⟨hold, -⟩ | ⟨hold, -⟩ | ⟨-, hold, hnew⟩
      · exact hold ▸ (habsent path text htext).1
      · exact hold ▸ (habsent path text htext).2
      · exact absurd ((hold.trans hplain).trans hnew.symm) hchanged
  · rcases h.author with hnil | hnil | hsame
    · exact absurd hnil hne
    · exact absurd hnil hplain
    · exact absurd ((hold.trans hsame).trans hnew.symm) hchanged
  · rw [h.emails] at hmem
    split_ifs at hmem with hemail
    · cases hmem
    · rw [List.mem_singleton] at hmem
      exact absurd ((hold.trans hmem).trans hnew.symm) hchanged

theorem settled_of_quiet (haccepted : Accepted opts)
    (hgoMod : textOf tree (str "go.mod") = some text)
    (hfound : readMetadata tree = .ok found) (hrules : makeReplacements found opts = .ok rules)
    (hquiet : Quiet rules tree) : Settled opts tree := by
  obtain ⟨goMod, oldModule, hfile, hmodule, rfl⟩ := readMetadata_ok.mp hfound
  have hstands : oldModule <:+: text := by
    obtain ⟨file, hfile', htext⟩ := Option.bind_eq_some_iff.mp hgoMod
    obtain rfl := Option.some.inj (hfile.symm.trans hfile')
    exact File.text_eq_some htext ▸ infix_of_moduleDirective hmodule
  -- an item whose text stands in a file changes nothing
  have hidle : ∀ {old new path text : GoString},
    ⟨old, new⟩ ∈ allItems (metadataOf tree oldModule) opts → old ≠ [] →
      textOf tree path = some text → old <:+: text → old = new := by
    intro old new path text hitem hne htext hold
    by_contra hchanged
    obtain ⟨r, hr, hrule⟩ := exists_rule hrules hitem ⟨rfl, hne, hchanged⟩
    exact hquiet path text htext r hr (hrule ▸ hold)
  have hsame : oldModule = opts.module :=
    hidle (mem_allItems.mpr (.inl rfl)) (moduleDirective_bytes hmodule).1 hgoMod hstands
  subst hsame
  have hslug : projectSlug opts.module = opts.slug :=
    hidle (mem_allItems.mpr (.inr (.inl rfl))) (projectSlug_ne_nil haccepted.module_pattern) hgoMod
      ((projectSlug_isInfix _).trans hstands)
  refine ⟨⟨goMod, hfile, hmodule⟩, hslug, ?_, ?_, ?_⟩
  · by_cases hnil : githubOwner opts.module = []
    · exact .inl hnil
    · by_cases howner : githubOwner opts.module = newOwner opts
      · exact .inr (.inl howner)
      · have hitem : ∀ item, _ → item ∈ allItems (metadataOf tree opts.module) opts := fun item h =>
          mem_allItems.mpr
            (.inr (.inr (.inr (.inl (mem_ownerItems.mpr ⟨⟨hnil, newOwner_ne_nil hnil⟩, h⟩)))))
        have hplain : githubOwner opts.module = plainOwner opts :=
          hidle (hitem _ (.inr (.inr ⟨howner, rfl⟩))) hnil hgoMod
            ((githubOwner_isInfix _).trans hstands)
        refine .inr (.inr ⟨hplain, fun path text htext => ⟨fun h => howner ?_, fun h => howner ?_⟩⟩)
        · exact List.append_cancel_left
            (hidle (hitem _ (.inl rfl)) (List.append_ne_nil_of_right_ne_nil _ hnil) htext h)
        · exact List.append_cancel_left
            (hidle (hitem _ (.inr (.inl rfl))) (List.append_ne_nil_of_right_ne_nil _ hnil) htext h)
  · by_cases hholder : discoverCopyrightHolder tree = []
    · exact .inl hholder
    · by_cases hplain : plainOwner opts = []
      · exact .inr (.inl hplain)
      · obtain ⟨path, text, htext, hold⟩ := infix_of_holder hholder
        have hauthor := mem_authorItems.mpr ⟨⟨hholder, hplain⟩, rfl⟩
        exact .inr (.inr (hidle (mem_allItems.mpr (.inr (.inr (.inr (.inr (.inl hauthor))))))
          hholder htext hold))
  · obtain ⟨-, -, ⟨hnone, hemail⟩ | ⟨⟨old, hone⟩, hemail⟩, -⟩ := makeReplacements_ok.mp hrules
    · rw [if_pos hemail]
      exact hnone
    · have hone : discoverEmails tree = [old] := hone
      have hmem : old ∈ discoverEmails tree := hone ▸ List.mem_singleton_self old
      obtain ⟨path, text, htext, hfind⟩ := mem_discoverEmails hmem
      obtain ⟨hold, name, after, domain, hparts, -⟩ := mem_findEmails hfind
      have hsame : old = opts.email := by
        refine hidle (mem_allItems.mpr (.inr (.inr (.inr (.inr (.inr ⟨old, hmem, rfl⟩))))))
          ?_ htext hold
        rw [hparts]
        simp
      rw [if_neg hemail, ← hsame]
      exact hone

/-- After a first run, a second one with the same options succeeds and changes
nothing if what it reads agrees with the options. It changes nothing only
then, or if its replacements cancel. -/
theorem second_run_changes_nothing (hoptions : validateOptions opts = .ok ())
    (hfirst : run opts tree = .ok first) :
    (Settled opts first.1 → run opts first.1 = .ok (first.1, ∅)) ∧
      ((textOf first.1 (str "go.mod")).isSome → ∀ second, run opts first.1 = .ok (second, ∅) →
        Settled opts first.1 ∨ Cancels opts first.1) := by
  constructor
  · intro hsettled
    obtain ⟨found, rules, -, hrules, -⟩ := run_ok.mp hfirst
    obtain ⟨found', rules', hfound', hrules', hquiet⟩ :=
      hsettled.quiet (makeReplacements_ok.mp hrules).1
    have hnone : collectChanges first.1 rules' = ∅ :=
      collectChanges_eq_empty fun _ _ htext => hquiet.replaceOnce htext
    refine run_ok.mpr ⟨found', rules', hfound', hrules', ?_⟩
    rw [hnone, rewrite_empty]
  · intro hgoMod second hsecond
    obtain ⟨text, hgoMod⟩ := Option.isSome_iff_exists.mp hgoMod
    obtain ⟨found, rules, hfound, hrules, hresult⟩ := run_ok.mp hsecond
    have hnone : collectChanges first.1 rules = ∅ := congrArg Prod.snd hresult
    by_cases hquiet : Quiet rules first.1
    · exact .inl (settled_of_quiet (accepted_of_validateOptions hoptions)
        hgoMod hfound hrules hquiet)
    · -- some text that is replaced stands in a file that comes out as it was
      simp only [Quiet, not_forall, not_not] at hquiet
      obtain ⟨path, text, htext, r, hr, hold⟩ := hquiet
      exact .inr ⟨found, rules, path, text, hfound, hrules, htext, ⟨r, hr, hold⟩,
        replaceOnce_of_collectChanges hnone htext⟩

end

-- ---------------------------------------------------------------------------
-- Options that agree and options that do not
-- ---------------------------------------------------------------------------

def licensedTree : Tree :=
  ((sampleTree.insert (str "LICENSE") ⟨true, str "Copyright (c) 2026 acme\n"⟩).insert
    (str "SECURITY.md")
    ⟨true, str "Write to old@acme.io.\n"⟩)

def agreeingOptions : Options :=
  { movedOptions with author := str "Ann Lee", email := str "ann@beta.io" }

def splitOptions : Options := { agreeingOptions with module := str "github.com/beta/app" }

def licensedFound : Metadata := metadataOf licensedTree (str "github.com/acme/app")

def onceRun (opts : Options) : Tree :=
  rewrite licensedTree
    (collectChanges licensedTree (normalizeReplacements (allItems licensedFound opts)))

theorem run_licensed (hopts : opts ∈ [agreeingOptions, splitOptions]) :
    run opts licensedTree = .ok (onceRun opts,
      collectChanges licensedTree (normalizeReplacements (allItems licensedFound opts))) := by
  have hall : ∀ opts ∈ [agreeingOptions, splitOptions],
      (newOwner opts = [] ∨ ownerPattern (newOwner opts) = true) ∧
      (licensedFound.oldOwner = [] ∨ newOwner opts ≠ []) ∧
        licensedFound.oldEmails = [str "old@acme.io"] ∧ opts.email ≠ [] := by
    decide +kernel
  obtain ⟨howner, hgithub, hemails, hemail⟩ := hall opts hopts
  refine run_ok.mpr ⟨licensedFound, _, ?_, makeReplacements_ok.mpr ⟨howner, hgithub,
    .inr ⟨⟨_, hemails⟩, hemail⟩, rfl⟩, rfl⟩
  exact readMetadata_ok.mpr ⟨_, str "github.com/acme/app", rfl, by decide +kernel, rfl⟩

theorem second_run_agreeing :
    run agreeingOptions (onceRun agreeingOptions) = .ok (onceRun agreeingOptions, ∅) := by
  refine (second_run_changes_nothing (by decide +kernel) (run_licensed (by simp))).1
    ⟨?_, ?_, ?_, ?_, ?_⟩
  · exact ⟨⟨true, str "module github.com/beta/svc\n\ngo 1.25\n"⟩,
      by decide +kernel, by decide +kernel⟩
  · decide +kernel
  · exact .inr (.inl (by decide +kernel))
  · exact .inr (.inr (by decide +kernel))
  · decide +kernel

theorem second_run_split_slug : validateOptions splitOptions = .ok () ∧ ∃ first,
    run splitOptions licensedTree = .ok first ∧ ¬∃ second,
    run splitOptions first.1 = .ok (second, ∅) := by
  refine ⟨by decide +kernel, _, run_licensed (by simp), ?_⟩
  rintro ⟨second, hsecond⟩
  have hchanged : (run splitOptions (onceRun splitOptions)).toOption.map
    (fun second => second.2.lookup (str "go.mod")) =
      some (some (str "module github.com/beta/svc\n\ngo 1.25\n")) := by
    decide +kernel
  rw [hsecond] at hchanged
  cases hchanged

end GoClean.Bootstrap
