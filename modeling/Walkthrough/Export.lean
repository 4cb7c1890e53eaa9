import Walkthrough.Export.Flowchart
import Walkthrough.Export.Listing
import Walkthrough.Json.Token
import Walkthrough.Trace.Encoding

/-!
# Export formats

The forms in which a trace is written out, and the names that choose them.
-/

namespace Walkthrough

inductive Export.Format where
  | json
  | text
  | dot
  deriving DecidableEq

namespace Export.Format

def all : List Format := [.json, .text, .dot]

def name : Format → Text
  | .json => "json".toList
  | .text => "text".toList
  | .dot => "dot".toList

def ofName? (t : Text) : Option Format := all.find? fun format => format.name = t

end Export.Format

def Trace.render (format : Export.Format) (steps : Trace) : Text :=
  match format with
  | .json => (Trace.toJson steps).writeIndented
  | .text => Trace.listing steps
  | .dot => Trace.flowchart steps

end Walkthrough
