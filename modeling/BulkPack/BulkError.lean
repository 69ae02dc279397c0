import BulkPack.IoError

/-!
# Failures of a body

A body refuses an entry when it is full or sealed; an entry can fail to answer a query; a record
can fail to be encoded; the sink can fail to take bytes.
-/

namespace BulkPack

/-- The queries that a body asks an entry. -/
inductive EntryField where
  | index
  | docType
  | id
  | action
  | document
  deriving DecidableEq

def EntryField.name : EntryField → String
  | .index => "index"
  | .docType => "type"
  | .id => "id"
  | .action => "action"
  | .document => "document"

/-- The lines of a record. -/
inductive RecordPart where
  | header
  | document
  deriving DecidableEq

def RecordPart.name : RecordPart → String
  | .header => "header"
  | .document => "document"

/-- A failure to append an entry or to seal a body. -/
inductive BulkError where
  | full
  | entry (field : EntryField) (cause : String)
  | encoding (part : RecordPart) (cause : String)
  | sink (e : IoError)
  deriving DecidableEq

namespace BulkError

def message : BulkError → String
  | .full => "no more operations can be added"
  | .entry f m => "entry " ++ f.name ++ ": " ++ m
  | .encoding p m => "encode " ++ p.name ++ ": " ++ m
  | .sink e => "IO: " ++ e.message

/-- The wording of the cause of a failure, if it has one. -/
def cause? : BulkError → Option String
  | .full => none
  | .entry _ m | .encoding _ m => some m
  | .sink e => some e.message

/-- Whether the body has no room; draining it helps. -/
def isFull : BulkError → Bool
  | .full => true
  | _ => false

end BulkError

end BulkPack
