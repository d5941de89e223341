import Inkpress.Json.Basic

namespace Inkpress

inductive Error
  | validation (message : String) (fields : List String)
  | invalidFormat (message : String)
  | postNotFound (id : Int)
  | invalidPostId (raw : String)
  | imageNotFound (id : Int)
  | duplicate (message : String)
  | database (message : String)
  | connection (message : String)
  | transaction (message : String)
  | internal (message : String)
  deriving Repr, DecidableEq

namespace Error

def message : Error → String
  | validation m _ => "Validation failed: " ++ m
  | invalidFormat m => "Invalid format: " ++ m
  | postNotFound _ => "Blog post not found"
  | invalidPostId _ => "Blog post not found"
  | imageNotFound _ => "Image not found"
  | duplicate m => "Duplicate resource: " ++ m
  | database m => "Database error: " ++ m
  | connection m => "Database connection error: " ++ m
  | transaction m => "Transaction rolled back: " ++ m
  | internal m => "Internal server error: " ++ m

def code : Error → String × Nat
  | validation _ _ => ("VALIDATION_ERROR", 1001)
  | invalidFormat _ => ("INVALID_FORMAT", 1003)
  | postNotFound _ => ("POST_NOT_FOUND", 4002)
  | invalidPostId _ => ("POST_NOT_FOUND", 4002)
  | imageNotFound _ => ("IMAGE_NOT_FOUND", 4003)
  | duplicate _ => ("CONFLICT", 5001)
  | database _ => ("DATABASE_ERROR", 7001)
  | connection _ => ("CONNECTION_ERROR", 7002)
  | transaction _ => ("TRANSACTION_ERROR", 7003)
  | internal _ => ("INTERNAL_ERROR", 9001)

def status : Error → Nat
  | validation _ _ => 400
  | invalidFormat _ => 400
  | postNotFound _ => 404
  | invalidPostId _ => 404
  | imageNotFound _ => 404
  | duplicate _ => 409
  | database _ => 500
  | connection _ => 500
  | transaction _ => 500
  | internal _ => 500

def isServer (e : Error) : Bool :=
  500 ≤ e.status && e.status < 600

def isClient (e : Error) : Bool :=
  400 ≤ e.status && e.status < 500

def logLines (e : Error) : List (String × String) :=
  if e.isServer then [("ERROR", "Server error")]
  else if e.isClient then [("WARN", "Client error")]
  else []

def body (e : Error) : Json :=
  .object [("error", .text e.message)]

def duplicateTitle (title : String) : Error :=
  .duplicate ("a blog post titled '" ++ title ++ "' already exists")

theorem isServer_iff_not_isClient (e : Error) : e.isServer = !e.isClient := by
  cases e <;> rfl

end Error

end Inkpress
