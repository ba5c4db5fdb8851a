import Sequencer.Describe
import Sequencer.Notation.Record

/-!
# Completion policies as text

A policy is stored as the bare word of its name.
-/

namespace Sequencer.Completion

open Notation

def toText (c : Completion) : String := c.name

def read : Reader Completion := do
  match ← Notation.name with
  | "All" => return all
  | "Any" => return any
  | "Never" => return never
  | _ => failure

def ofText? (text : String) : Option Completion := Notation.ofText? (fun _ => read) text

end Sequencer.Completion
