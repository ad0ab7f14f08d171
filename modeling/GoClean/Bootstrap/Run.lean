import Mathlib.Data.List.Dedup
import Mathlib.Data.List.Sort
import GoClean.Bootstrap.Text
import GoClean.Go.Fmt
import GoClean.Lib.AssocMap
import GoClean.Lib.Rewriting

/-!
# A run of bootstrap

`cmd/bootstrap` from accepted options to the rewritten tree: what is read off
the tracked files, the replacements it leads to, and the pass over every text
file. Paths are as Git prints them, so they are clean and stay in the
worktree. A run without `--dry-run` writes every change it has collected.
-/

namespace GoClean.Bootstrap

open Go Rewriting

def maxTextFile : Nat := 33554432

structure Options where
  module : GoString
  slug : GoString
  owner : GoString := []
  author : GoString := []
  email : GoString := []
  deriving DecidableEq

def validateOptions (opts : Options) : Except Errorf Unit := do
  reject opts.module.isEmpty ⟨"--module is required", []⟩
  reject opts.slug.isEmpty ⟨"--slug is required", []⟩
  reject (!modulePathPattern opts.module || containsString opts.module "//")
    ⟨"invalid module path %q", [.string opts.module]⟩
  reject ((opts.module.splitOn 47).any fun segment => segment == str "." || segment == str "..")
    ⟨"invalid module path %q", [.string opts.module]⟩
  reject (!slugPattern opts.slug)
    ⟨"invalid project slug %q (use lower-case letters, digits, '_' or '-')", [.string opts.slug]⟩
  reject (!opts.owner.isEmpty && !ownerPattern opts.owner) ⟨"invalid GitHub owner %q",
    [.string opts.owner]⟩
  reject (!opts.author.isEmpty && (!validString opts.author || hasControl opts.author))
    ⟨"invalid author %q (control characters are not allowed)", [.string opts.author]⟩
  reject (!opts.email.isEmpty && (!parsesAsItself opts.email || (emailPattern opts.email).isEmpty))
    ⟨"invalid email address %q", [.string opts.email]⟩

-- ---------------------------------------------------------------------------
-- The tree
-- ---------------------------------------------------------------------------

structure File where
  regular : Bool := true
  data : GoString
  deriving DecidableEq

abbrev Tree := AssocMap GoString File

def isText (data : GoString) : Bool := !data.contains 0 && validString data

/-- The content of a file that bootstrap reads and rewrites: regular, not too
large and text. -/
def File.text (file : File) : Option GoString :=
  if file.regular && decide (file.data.length ≤ maxTextFile) && isText file.data then
    some file.data else none

def textOf (tree : Tree) (path : GoString) : Option GoString := (tree.lookup path).bind File.text

structure Metadata where
  oldModule : GoString
  oldSlug : GoString
  oldOwner : GoString
  oldTitle : GoString
  oldAuthor : GoString
  oldEmails : List GoString
  deriving DecidableEq

def discoverCopyrightHolder (tree : Tree) : GoString :=
  match (textOf tree "LICENSE").bind copyrightHolder with
  | none => []
  | some holder => trimSpace holder

def discoverEmails (tree : Tree) : List GoString :=
  let found := [str "SECURITY.md", str "CODE_OF_CONDUCT.md"].flatMap fun path =>
    ((textOf tree path).map emailPattern).getD []
  found.dedup.insertionSort fun a b => ¬b < a

def metadataOf (tree : Tree) (oldModule : GoString) : Metadata where
  oldModule
  oldSlug := projectSlug oldModule
  oldOwner := githubOwner oldModule
  oldTitle := titleFromSlug (projectSlug oldModule)
  oldAuthor := discoverCopyrightHolder tree
  oldEmails := discoverEmails tree

/-- `readMetadata`. `go.mod` is read as it is. -/
def readMetadata (tree : Tree) : Except Errorf Metadata :=
  match tree.lookup (str "go.mod") with
  | none => .error ⟨"read go.mod: %w", []⟩
  | some goMod =>
    match moduleDirective goMod.data with
    | none => .error ⟨"go.mod does not contain a module directive", []⟩
    | some oldModule => .ok (metadataOf tree oldModule)

-- ---------------------------------------------------------------------------
-- The replacements
-- ---------------------------------------------------------------------------

/-- `replacement`. -/
structure Replacement where
  old : GoString
  new : GoString
  deriving DecidableEq

/-- The first part of `normalizeReplacements`: no empty or idle item, and the
first of each old text. -/
def keepItem (result : List (Rule UInt8)) (item : Replacement) : List (Rule UInt8) :=
  if h : item.old = [] ∨ item.old = item.new then result
  else if result.any (fun r => r.old == item.old) then result
  else result ++ [⟨item.old, item.new, fun hnil => h (.inl hnil)⟩]

def sortsBefore (left right : Rule UInt8) : Bool :=
  if left.old.length = right.old.length then decide (left.old < right.old)
  else decide (right.old.length < left.old.length)

def normalizeReplacements (items : List Replacement) : List (Rule UInt8) :=
  (items.foldl keepItem []).insertionSort fun a b => sortsBefore b a = false

def newOwner (opts : Options) : GoString :=
  if opts.owner = [] then githubOwner opts.module else opts.owner

def plainOwner (opts : Options) : GoString :=
  if opts.author = [] then newOwner opts else opts.author

def ownerItems (oldOwner newOwner plainOwner : GoString) : List Replacement :=
  if oldOwner ≠ [] ∧ newOwner ≠ [] then
    [⟨str "github.com/" ++ oldOwner, str "github.com/" ++ newOwner⟩,
      ⟨str "@" ++ oldOwner, str "@" ++ newOwner⟩] ++
      if oldOwner ≠ newOwner then [⟨oldOwner, plainOwner⟩] else []
  else []

def authorItems (oldAuthor plainOwner : GoString) : List Replacement :=
  if oldAuthor ≠ [] ∧ plainOwner ≠ [] then [⟨oldAuthor, plainOwner⟩] else []

def emailItems (oldEmails : List GoString) (email : GoString) :
    Except Errorf (List Replacement) := do
  reject (!oldEmails.isEmpty && email.isEmpty)
    ⟨"--email is required to replace the maintainer address found in project policy files", []⟩
  if email ≠ [] then
    match oldEmails with
    | [] =>
      .error
        ⟨"--email was supplied but no maintainer email was found in project policy files", []⟩
    | [old] => .ok [⟨old, email⟩]
    | _ => .error ⟨"--email is ambiguous; found %d maintainer addresses", [.int oldEmails.length]⟩
  else .ok []

def projectItems (found : Metadata) (opts : Options) : List Replacement :=
  [⟨found.oldModule, opts.module⟩, ⟨found.oldSlug, opts.slug⟩,
    ⟨found.oldTitle, titleFromSlug opts.slug⟩] ++
    ownerItems found.oldOwner (newOwner opts) (plainOwner opts) ++ authorItems found.oldAuthor
    (plainOwner opts)

def makeReplacements (found : Metadata) (opts : Options) : Except Errorf (List (Rule UInt8)) := do
  reject (!(newOwner opts).isEmpty && !ownerPattern (newOwner opts))
    ⟨"invalid GitHub owner %q", [.string (newOwner opts)]⟩
  reject (!found.oldOwner.isEmpty && (newOwner opts).isEmpty)
    ⟨"the new module is not a GitHub path; pass --owner to replace the existing GitHub owner", []⟩
  let emails ← emailItems found.oldEmails opts.email
  pure (normalizeReplacements (projectItems found opts ++ emails))

-- ---------------------------------------------------------------------------
-- The pass
-- ---------------------------------------------------------------------------

def replaceOnce (input : GoString) (replacements : List (Rule UInt8)) : GoString :=
  scan replacements input

/-- `collectChanges`: the new contents of the files that change. -/
def collectChanges (tree : Tree) (replacements : List (Rule UInt8)) : AssocMap GoString GoString :=
  tree.filterMap fun _ file => do
    let before ← file.text
    let after := replaceOnce before replacements
    if before = after then none else some after

def rewrite (tree : Tree) (changes : AssocMap GoString GoString) : Tree :=
  tree.filterMap fun path file =>
    some (match changes.lookup path with
      | some after => { file with data := after }
      | none => file)

def run (opts : Options) (tree : Tree) : Except Errorf (Tree × AssocMap GoString GoString) := do
  let found ← readMetadata tree
  let replacements ← makeReplacements found opts
  let changes := collectChanges tree replacements
  pure (rewrite tree changes, changes)

end GoClean.Bootstrap
