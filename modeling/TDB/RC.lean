import Mathlib.Logic.Basic

namespace TDB

/-- The return codes of `rc.h`, in the order the source declares them. -/
inductive RC where
  | success | invalidArgument | unimplenment | sqlSyntax | internal | nomem | notfound | empty
  | bufferpoolOpen | bufferpoolNobuf | bufferpoolInvalidPageNum
  | recordOpenned | recordInvalidRid | recordInvalidKey | recordDuplicateKey | recordNomem
  | recordEof | recordNotExist | recordInvisible
  | schemaDbExist | schemaDbNotExist | schemaDbNotOpened | schemaTableNotExist | schemaTableExist
  | schemaFieldNotExist | schemaFieldMissing | schemaFieldTypeMismatch | schemaIndexNameRepeat
  | ioerrRead | ioerrWrite | ioerrAccess | ioerrOpen | ioerrClose | ioerrSeek | ioerrTooLong
  | ioerrSync | lockedUnlock | lockedNeedWait | lockedConcurrencyConflict
  | fileExist | fileNotExist | fileName | fileBound | fileCreate | fileOpen | fileNotOpened
  | fileClose | fileRemove | fileSeek | fileRead | fileWrite
  | variableNotExists | variableNotValid | logbufFull | onlyFunctions
  deriving DecidableEq, Repr

/-- `RC_FAIL`: every code but `SUCCESS` is a failure. -/
def RC.fail (rc : RC) : Bool := rc != .success

end TDB
