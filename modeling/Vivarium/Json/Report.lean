import Vivarium.Demo
import Vivarium.Json.World
/-!
# Forms of reports

A summary is a record of its counters. A report names its severity and its message beside the
values it tells.
-/
namespace Vivarium

open Form

variable {α : Type} [Scalar α]

/-- Names and values of the counters. -/
def Summary.fields (s : Summary α) : List (String × Json α) :=
  [("tick", encode s.tick), ("live", encode s.live), ("births", encode s.births),
    ("deaths", encode s.deaths), ("refunds", encode s.refunds), ("resource", encode s.resource),
    ("pending", encode s.pending)]

def Severity.label : Severity → String
  | info => "INFO"
  | warn => "WARN"

namespace Report

/-- Names and values of what a report tells. -/
def fields : Report α → List (String × Json α)
  | started width height => [("width", encode width), ("height", encode height)]
  | progress s => s.fields
  | finished tick live => [("tick", encode tick), ("live", encode live)]
  | diedOut tick => [("tick", encode tick)]
  | idle => []

def document (r : Report α) : Json α :=
  .obj (("level", .str r.severity.label) :: ("message", .str r.message) :: r.fields)

end Report

end Vivarium
