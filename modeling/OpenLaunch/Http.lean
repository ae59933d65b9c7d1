import Mathlib.Data.Nat.Notation

/-! # Errors of requests -/

namespace OpenLaunch

/-- `HTTPException`. -/
structure HTTPException where
  status_code : ℕ
  detail : String
  deriving DecidableEq

/-- The response to an exception that no handler catches. -/
def serverError : HTTPException := ⟨500, "Internal Server Error"⟩

/-- `ERROR_MESSAGES.DEFAULT()`. -/
def defaultMessage : String := "Something went wrong :/"

/-- `ERROR_MESSAGES.NOT_FOUND`. -/
def notFoundMessage : String := "We could not find what you're looking for :/"

end OpenLaunch
