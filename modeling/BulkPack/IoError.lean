import BulkPack.Json.Reader

/-!
# Failures of reading and writing

Every failure has a kind and, where the library raises it itself, a cause of its own.
-/

namespace BulkPack

inductive IoKind where
  | notFound
  | permissionDenied
  | alreadyExists
  | notADirectory
  | isADirectory
  | directoryNotEmpty
  | storageFull
  | invalidInput
  | invalidData
  | invalidFilename
  | interrupted
  | unexpectedEof
  | writeZero
  | other
  deriving DecidableEq

def IoKind.name : IoKind → String
  | .notFound => "NotFound"
  | .permissionDenied => "PermissionDenied"
  | .alreadyExists => "AlreadyExists"
  | .notADirectory => "NotADirectory"
  | .isADirectory => "IsADirectory"
  | .directoryNotEmpty => "DirectoryNotEmpty"
  | .storageFull => "StorageFull"
  | .invalidInput => "InvalidInput"
  | .invalidData => "InvalidData"
  | .invalidFilename => "InvalidFilename"
  | .interrupted => "Interrupted"
  | .unexpectedEof => "UnexpectedEof"
  | .writeZero => "WriteZero"
  | .other => "Other"

inductive IoError where
  /-- A failure that the system reports. -/
  | system (kind : IoKind)
  /-- A compression level beyond nine. -/
  | gzipLevel (level : Nat)
  /-- Text that is not UTF-8. -/
  | notUtf8
  /-- A document that could not be read. -/
  | document (p : Json.Problem)
  /-- A compressed stream that is damaged or ends too early. -/
  | compressed (kind : IoKind)
  /-- A sink that takes no more bytes. -/
  | writeZero
  /-- A failure of a source or sink of the caller. -/
  | custom (kind : IoKind) (message : String)
  deriving DecidableEq

namespace IoError

def kind : IoError → IoKind
  | .system k => k
  | .gzipLevel _ => .invalidInput
  | .notUtf8 => .invalidData
  | .document _ => .invalidData
  | .compressed k => k
  | .writeZero => .writeZero
  | .custom k _ => k

def systemMessage : IoKind → String
  | .notFound => "No such file or directory (os error 2)"
  | .permissionDenied => "Permission denied (os error 13)"
  | .alreadyExists => "File exists (os error 17)"
  | .notADirectory => "Not a directory (os error 20)"
  | .isADirectory => "Is a directory (os error 21)"
  | .invalidInput => "file name contained an unexpected NUL byte"
  | .storageFull => "No space left on device (os error 28)"
  | .invalidFilename => "File name too long (os error 36)"
  | .directoryNotEmpty => "Directory not empty (os error 39)"
  | k => k.name

def message : IoError → String
  | .system k => systemMessage k
  | .gzipLevel n => "gzip level " ++ toString n ++ " out of range 0-9"
  | .notUtf8 => "stream did not contain valid UTF-8"
  | .document (.mismatch m) => m.message?.getD "unexpected value"
  | .document .malformed => "malformed document"
  | .document .endOfInput => "unexpected end of document"
  | .compressed .unexpectedEof => "unexpected end of compressed data"
  | .compressed _ => "corrupt compressed data"
  | .writeZero => "failed to write whole buffer"
  | .custom _ m => m

end IoError

end BulkPack
