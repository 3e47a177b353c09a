import Mathlib.Init

/-! The result of a procedure that can fail. -/
namespace Ogre.Fml

inductive StatusCode
  | kOk
  | kCancelled
  | kUnknown
  | kInvalidArgument
  | kDeadlineExceeded
  | kNotFound
  | kAlreadyExists
  | kPermissionDenied
  | kResourceExhausted
  | kFailedPrecondition
  | kAborted
  | kOutOfRange
  | kUnimplemented
  | kInternal
  | kUnavailable
  | kDataLoss
  | kUnauthenticated
  deriving DecidableEq, Repr

structure Status where
  code : StatusCode := .kOk
  message : String := ""
  deriving DecidableEq, Repr

def Status.ok (s : Status) : Bool := s.code = .kOk

/-- A value, or the status that says why there is none. -/
abbrev StatusOr (α : Type*) := Except Status α

end Ogre.Fml
