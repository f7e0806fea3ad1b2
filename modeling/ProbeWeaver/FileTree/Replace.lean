import ProbeWeaver.Digest.Fingerprint
import ProbeWeaver.FileTree.Basic

/-!
# FileTree/Replace — replacing a file that nobody else has changed

A file is replaced as a whole, and only while its text has the fingerprint that was taken when it
was parsed.  A link is replaced itself, not the file behind it.
-/

namespace ProbeWeaver

/-- Why a file is not replaced. -/
inductive WriteError where
  | stale (path : String)
  | file (cause : FileError)
  | encoding (fault : Text.Utf8Fault)
  deriving DecidableEq, Repr

/-- The wording of a write error. -/
def WriteError.message : WriteError → String
  | .stale path => path ++ " changed on disk since it was parsed"
  | .file cause => "File I/O error: " ++ cause.message
  | .encoding fault => "UTF-8 validation error: " ++ fault.message

/-- What writing a file back came to. -/
inductive WriteOutcome where
  | written (bytes : Nat)
  | unchanged
  deriving DecidableEq, Repr

namespace FileTree

/-- The place of a path's last name, which is not followed if it is a link. -/
def resolveParent (root : FileTree) (here : Place) (path : String) : Except FileError Place := do
  let names := Text.splitAt path '/'
  let parent ← root.resolveNames maxLinks (if isAbsolute path then [] else here) names.dropLast
  return parent ++ names.getLast?.toList

/-- The text of the file at a path, with the fault of one that is no text. -/
def currentText (root : FileTree) (here : Place) (path : String) : Except WriteError String :=
  match root.read here path with
  | .error cause => .error (.file cause)
  | .ok bytes =>
    match Text.Utf8.decode bytes with
    | .ok text => .ok text
    | .error fault => .error (.encoding fault)

/-- **Writes `content` back** to a file, provided that its text is still the expected one. -/
def replaceFile (root : FileTree) (here : Place) (path : String) (expected : Fingerprint)
    (content : String) : Except WriteError (WriteOutcome × FileTree) := do
  let current ← root.currentText here path
  if current = content then return (.unchanged, root)
  else if expected.accepts current then
    match root.resolveParent here path with
    | .ok place => return (.written content.utf8ByteSize, root.set place (.file content.toUTF8))
    | .error cause => throw (.file cause)
  else throw (.stale path)

end FileTree

end ProbeWeaver
