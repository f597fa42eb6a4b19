import Workbench.Catalog
import Workbench.Digest
set_option autoImplicit false

namespace Workbench

structure DetectedFile where
  path : String
  entry : CatalogEntry
  /-- The digest of the bytes; empty when they could not be read. -/
  digest : String
  /-- An empty object when the file failed. -/
  content : Json
  failure : Option ReadError
  deriving DecidableEq, Repr

structure ParseFailure where
  file : String
  reason : String
  deriving DecidableEq, Repr

def ParseFailure.message (f : ParseFailure) : String := f.file ++ ": " ++ f.reason

namespace DetectedFile

def isParsed (f : DetectedFile) : Bool := f.failure.isNone

def parseFailure? (f : DetectedFile) : Option ParseFailure :=
  f.failure.map fun e => ⟨f.path, e.message⟩

def ofBytes (path : String) (entry : CatalogEntry) (bytes : Except String (List UInt8)) :
    DetectedFile :=
  match bytes with
  | .error reason => ⟨path, entry, "", Json.emptyObject, some (.unreadable reason)⟩
  | .ok bs =>
    match entry.dialect.parseBytes bs with
    | .ok content => ⟨path, entry, Digest.sha256 bs, content, none⟩
    | .error e => ⟨path, entry, Digest.sha256 bs, Json.emptyObject, some e⟩

end DetectedFile
end Workbench
