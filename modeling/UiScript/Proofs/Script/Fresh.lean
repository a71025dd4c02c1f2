import UiScript.Proofs.Page
import UiScript.Proofs.Script.Routing

/-!
# The variables of elements

The generator counts elements, and each count is used for one line that creates an element.
-/

namespace UiScript.Script

open List

open Dom (elementName)

end UiScript.Script
