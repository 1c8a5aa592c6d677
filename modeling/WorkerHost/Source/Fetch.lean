import WorkerHost.Files.Tree
/-!
Where source text comes from: given inline, or read from a file that a path or a `file://` URL
names.
-/

namespace WorkerHost

/-- Why a text can not be fetched. -/
inductive FetchError where
  | unavailable (url : String) (reason : FileError)
  | unsupportedScheme (scheme : String)
  deriving DecidableEq

def FetchError.name : FetchError → String
  | unavailable .. => "Unavailable"
  | unsupportedScheme _ => "UnsupportedScheme"

def FetchError.message : FetchError → String
  | unavailable url reason => "Unable to fetch " ++ url ++ ": " ++ reason.message
  | unsupportedScheme scheme => "Unsupported URL scheme: " ++ scheme

/-- The text before the first `://` and the text after it. -/
def cutScheme : List Char → Option (List Char × List Char)
  | ':' :: '/' :: '/' :: rest => some ([], rest)
  | c :: rest => (cutScheme rest).map fun (scheme, path) => (c :: scheme, path)
  | [] => none

/-- Reads files of a tree, relative paths from a base directory if there is one. -/
structure FileFetch where
  tree : FileTree
  base : Option String

namespace FileFetch

/-- The path that a URL or plain path names. -/
def resolve (f : FileFetch) (url : String) : Except FetchError String := do
  let path ←
    match cutScheme url.toList with
    | some (scheme, path) =>
      if scheme == "file".toList then pure (String.ofList path)
      else throw (.unsupportedScheme (String.ofList scheme))
    | none => pure url
  return (f.base.map (Path.join · path)).getD path

/-- The text at a URL. -/
def fetch (f : FileFetch) (url : String) : Except FetchError String := do
  (f.tree.readText (← f.resolve url)).mapError (.unavailable url)

end FileFetch

/-- Where a source text comes from. -/
inductive SourceRef where
  | inline (code : String)
  | url (url : String)

namespace SourceRef

/-- How runs of the text name their source. -/
def label : SourceRef → String
  | inline _ => "<inline>"
  | url u => u

def load (f : FileFetch) : SourceRef → Except FetchError String
  | inline code => .ok code
  | url u => f.fetch u

end SourceRef
end WorkerHost
