import PiWorkflows.Lib.Replace
import PiWorkflows.State.Viewer

/-!
# Patches of a view document (`tui/src/protocol.rs`)

`apply_patch` changes the document in place and stops at the first operation that
does not apply, after which the caller asks for a new snapshot. A document is a
value here: the walk to the target of a path puts each container back on the way
out, and what a failed patch leaves behind is not kept.
-/

namespace PiWorkflows.Tui

open Fallible

end PiWorkflows.Tui
