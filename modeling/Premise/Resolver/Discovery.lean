import Premise.Logged
import Premise.Resolver.Module
/-!
Finding resolvers in a directory. Module files are visited in the order of their paths, name by
name, and a later file wins over an earlier one. Main definition: `ResolverPath.discover`.
-/
namespace Premise

/-- A file below a directory, by the names on the way to it; its module, or why it cannot be
loaded. -/
structure ModuleFile where
  names : List String
  content : Except String ResolverModule

namespace ModuleFile

def fileName (f : ModuleFile) : String :=
  f.names.getLastD ""

/-- Module files end in `.py`; those that begin with an underscore are left out. -/
def isVisible (f : ModuleFile) : Bool :=
  ".py".toList.isSuffixOf f.fileName.toList && f.fileName.toList.head? != some '_'

def before (f g : ModuleFile) : Bool :=
  Text.pathLe f.names g.names

end ModuleFile

/-- A path and the files below it, if it is a directory. -/
structure ResolverPath where
  path : String
  files? : Option (List ModuleFile)

structure Discovery where
  resolvers : Table Resolver := []
  loaded : List String := []
  failed : List (String × String) := []

namespace ResolverPath

def filePath (p : ResolverPath) (f : ModuleFile) : String :=
  Text.plainPath (p.path ++ "/" ++ "/".intercalate f.names)

def root (p : ResolverPath) : String :=
  Text.plainPath p.path

/-- The module files in the order of their visit. -/
def visited (files : List ModuleFile) : List ModuleFile :=
  (files.filter (·.isVisible)).mergeSort ModuleFile.before

/-- Adds what one file offers. A file that offers nothing does not count as loaded. -/
def visit (p : ResolverPath) (d : Discovery) (f : ModuleFile) : Discovery :=
  match f.content with
  | .error message => { d with failed := d.failed ++ [(p.filePath f, message)] }
  | .ok m =>
    if m.offers.isEmpty then d
    else
      { d with
        resolvers := Table.putAll d.resolvers m.offers
        loaded := d.loaded ++ [p.filePath f] }

def visitLog (speaker : Speaker) (p : ResolverPath) (f : ModuleFile) : List LogEntry :=
  match f.content with
  | .error message =>
    [⟨.warning, speaker, "Failed to load resolver file " ++ p.filePath f ++ ": " ++ message⟩]
  | .ok m =>
    if m.offers.isEmpty then []
    else
      [⟨.debug, speaker,
        "Loaded " ++ toString m.offers.length ++ " resolvers from " ++ p.filePath f⟩]

/-- What the files offer, once all of them were visited. -/
def collect (p : ResolverPath) (files : List ModuleFile) : Discovery :=
  (visited files).foldl p.visit {}

def collectLog (speaker : Speaker) (p : ResolverPath) (files : List ModuleFile) : List LogEntry :=
  let d := p.collect files
  [⟨.debug, speaker,
      "Found " ++ toString (visited files).length ++ " Python files in " ++ p.root⟩] ++
    (visited files).flatMap (p.visitLog speaker) ++
    [⟨.info, speaker, "Loaded " ++ toString d.resolvers.length ++ " resolvers from " ++
      toString d.loaded.length ++ " files"⟩]

def discover (speaker : Speaker) (p : ResolverPath) : Logged Discovery :=
  if p.path = "" then .fail .noResolverPath
  else
    match p.files? with
    | none =>
      ⟨[⟨.warning, speaker, "Could not read resolver directory " ++ p.root⟩], .ok {}⟩
    | some files =>
      if (visited files).isEmpty then
        ⟨[⟨.warning, speaker, "No .py files found in resolvers path: " ++ p.root⟩], .ok {}⟩
      else ⟨p.collectLog speaker files, .ok (p.collect files)⟩

end ResolverPath

end Premise
