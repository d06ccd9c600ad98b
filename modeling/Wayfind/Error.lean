/-
What can go wrong, and how it is told.

An error is a cause with a text; the wording puts a fixed phrase of the cause in front.
Only an operation that ran out of time or was cancelled has ended for good: every other
error of an attempt is a reason to try again.
-/

namespace Wayfind

/-- The cause of a failure. -/
inductive Error where
  | io (text : String)
  | webSocket (text : String)
  | protocol (text : String)
  /-- A document could not be read as what was expected. -/
  | serialization (text : String)
  | elementNotFound (text : String)
  | timeout (text : String)
  | cancelled
  | scriptFailed (text : String)
  | invalidSelector (text : String)
  | queryHandler (text : String)
  | unsupportedElement (text : String)
  | notReady (text : String)
  | configuration (text : String)
  | internal (text : String)
deriving DecidableEq, Repr, Inhabited

namespace Error

/-- The text of an error. -/
def message : Error → String
  | io text => "I/O error: " ++ text
  | webSocket text => "WebSocket error: " ++ text
  | protocol text => "CDP error: " ++ text
  | serialization text => "Serialization error: " ++ text
  | elementNotFound text => "Element not found: " ++ text
  | timeout text => "Operation timeout: " ++ text
  | cancelled => "Operation cancelled"
  | scriptFailed text => "Script execution failed: " ++ text
  | invalidSelector text => "Invalid selector: " ++ text
  | queryHandler text => "Query handler error: " ++ text
  | unsupportedElement text => "Unsupported element: " ++ text
  | notReady text => "Element not ready: " ++ text
  | configuration text => "Configuration error: " ++ text
  | internal text => "Internal error: " ++ text

/-- A timeout or a cancellation. -/
def isTerminal : Error → Bool
  | timeout _ | cancelled => true
  | _ => false

/-- The error of a handle that was released. -/
def disposed : Error := .internal "JSHandle is disposed"

/-- The error of a wait that outlived its time. -/
def waitExceeded (timeout : Nat) : Error :=
  .timeout ("Waiting failed: " ++ toString timeout ++ "ms exceeded")

end Error

end Wayfind
