/-!
# Failures of a tick

A tick fails only because a hook of an action, or a condition, failed. The failure travels to the
caller of the tick unchanged, so this is the one error type of running sequences.
-/

namespace Sequencer

/-- Why a hook or a condition failed. -/
inductive TickError
  /-- The context cannot be worked with. -/
  | invalidContext (reason : String)
  /-- The action could not do its work. -/
  | action (reason : String)
  /-- Any other failure, with its own text. -/
  | other (text : String)
  deriving DecidableEq

def TickError.message : TickError → String
  | invalidContext reason => "Invalid context: " ++ reason
  | action reason => "Action failed: " ++ reason
  | other text => text

end Sequencer
