import SoloRun.Json.Shape
import SoloRun.Path
import SoloRun.Platform
import SoloRun.Version.Requirement

/-!
The metadata of a workspace: what its packages, their dependencies and targets and the resolved
graph must look like for the workspace root to be taken from it.
-/

namespace SoloRun.Metadata

open Json Json.Shape

def isOneOf (names : List String) (text : List Char) : Bool :=
  names.contains (String.ofList text)

def editions : List String :=
  ["2015", "2018", "2021", "2024", "2027", "2030"]

def edition : Shape :=
  choice (isOneOf editions)

def crateTypes : List String :=
  ["bin", "cdylib", "dylib", "lib", "proc-macro", "rlib", "staticlib"]

def targetKinds : List String :=
  crateTypes ++ ["bench", "custom-build", "example", "test"]

/-- One of the names known, or any other as a text. -/
def openChoice (names : List String) : Shape :=
  either anyText (choice (isOneOf names))

def texts : Shape :=
  listOf anyText

/-- Normal dependencies have no kind. -/
def dependencyKind : Shape :=
  orNull (choice fun _ => true)

def platform : Shape :=
  text Platform.isPlatform

def dependency : Shape :=
  record
    [required "name" anyText, nullable "source" anyText,
      required "req" (text Version.isRequirement), required "kind" dependencyKind,
      required "optional" flag, required "uses_default_features" flag, required "features" texts,
      nullable "target" platform,
      nullable "rename" anyText, nullable "registry" anyText, nullable "path" anyText]

def target : Shape :=
  record
    [required "name" anyText, required "kind" (listOf (openChoice targetKinds)),
      free "crate_types" (listOf (openChoice crateTypes)), free "required-features" texts,
      required "src_path" anyText, free "edition" edition, free "doctest" flag, free "test" flag,
      free "doc" flag]

def package : Shape :=
  record
    [required "name" anyText, required "version" (text Version.isVersion), free "authors" texts,
      required "id" anyText, nullable "source" anyText, nullable "description" anyText,
      required "dependencies" (listOf dependency), nullable "license" anyText,
      nullable "license_file" anyText, required "targets" (listOf target),
      required "features" (tableOf texts), required "manifest_path" anyText,
      free "categories" texts, free "keywords" texts, nullable "readme" anyText,
      nullable "repository" anyText, nullable "homepage" anyText, nullable "documentation" anyText,
      free "edition" edition, free "metadata" (anything 3), nullable "links" anyText,
      nullable "publish" texts, nullable "default_run" anyText,
      free "rust_version" (orNull (text Version.isToolchain))]

def edgeKind : Shape :=
  record [required "kind" dependencyKind, nullable "target" platform]

def edge : Shape :=
  record [required "name" anyText, required "pkg" anyText, free "dep_kinds" (listOf edgeKind)]

def node : Shape :=
  record
    [required "id" anyText, free "deps" (listOf edge), required "dependencies" texts,
      free "features" texts]

def graph : Shape :=
  record [required "nodes" (listOf node), nullable "root" anyText]

def metadata : Shape :=
  record
    [required "packages" (listOf package), required "workspace_members" texts,
      free "workspace_default_members" (orNull texts), nullable "resolve" graph,
      required "workspace_root" anyText, required "target_directory" anyText,
      free "metadata" (anything 1), required "version" whole]

def textNamed? (name : String) : Tree → Option (List Char)
  | .object members =>
    match (named? members).map (valuesOf name) with
    | some [.string inner] => text? inner
    | _ => none
  | _ => none

/-- The root that metadata names. -/
def root? (tree : Tree) : Option Path :=
  if metadata tree then
    (textNamed? "workspace_root" tree).map fun root => Path.ofString (String.ofList root)
  else none

end SoloRun.Metadata
