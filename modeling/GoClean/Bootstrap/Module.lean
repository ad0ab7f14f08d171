import GoClean.Bootstrap.Replacements

/-!
# The module path of the rewritten project

Slug and owner are parts of the module path, so the path is safe only while
its own replacement is the longest one that applies to it. A run that keeps
the path has no such replacement, since an idle item is dropped: then nothing
may be replaced inside the path at all.
-/

namespace GoClean.Bootstrap

open Go Rewriting

section
variable {rules : List (Rule UInt8)} {oldModule newModule : GoString}

end

-- ---------------------------------------------------------------------------
-- A run
-- ---------------------------------------------------------------------------

section
variable {opts : Options} {tree : Tree} {found : Metadata} {rules : List (Rule UInt8)}
    {goMod : GoString}

end

-- ---------------------------------------------------------------------------
-- A new slug under the old path
-- ---------------------------------------------------------------------------

def sampleTree : Tree :=
  ((∅ : Tree).insert (str "go.mod") ⟨true, str "module github.com/acme/app\n\ngo 1.25\n"⟩).insert
    (str "README.md")
    ⟨true, str "# App\n\nimport github.com/acme/app/pkg\n"⟩

def movedOptions : Options := { module := str "github.com/beta/svc", slug := str "svc" }

end GoClean.Bootstrap
