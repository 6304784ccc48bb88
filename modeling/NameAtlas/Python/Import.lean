import NameAtlas.Python.Syntax
import NameAtlas.Text.Split

/-!
# Imports

Where the names of an import come from. A source without dots in front is a path of its own. Each
dot in front stands for a package around the importing module: the first one for the package that
the module lies in, which for the file of a package is the module itself, and each further one for
the package around.
-/

namespace NameAtlas.Python

/-- The module that the text behind `from` names in an import made by `module`. -/
def resolveSource (source : String) (module : Fqn) (isPackage : Bool) : Fqn :=
  let dots := source.toList.takeWhile (· = '.')
  let names := Text.trimmedParts (Text.splitAt '.' (source.toList.dropWhile (· = '.')))
  let level := dots.length
  if level = 0 then ⟨names⟩
  else
    let climb := if isPackage then level - 1 else level
    (Fqn.mk (module.segments.take (module.segments.length - climb))).descendant names

/-- The qualified name that an import binds its name to. -/
def ImportBinding.target (b : ImportBinding) (module : Fqn) (isPackage : Bool) : Fqn :=
  match b.source with
  | some source => (resolveSource source module isPackage).descendant b.path
  | none => ⟨b.path⟩

end NameAtlas.Python
