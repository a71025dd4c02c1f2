import UiScript.Main
import UiScript.Proofs.Dom.Agreement
import UiScript.Proofs.Render.Recursion
import UiScript.Proofs.Render.Relevance
import UiScript.Proofs.Script.Braces
import UiScript.Proofs.Script.Fresh
import UiScript.Proofs.Script.Keys
import UiScript.Proofs.Script.Literals
import UiScript.Proofs.Script.Names
import UiScript.Proofs.Script.Styles
import UiScript.Proofs.Serve.Target
import UiScript.Proofs.Settings.Faults
import UiScript.Proofs.Site.Freshness
import UiScript.Proofs.Site.Pages
import UiScript.Proofs.Syntax.Annotations
import UiScript.Proofs.Syntax.Dump
import UiScript.Proofs.Syntax.Markup
import UiScript.Proofs.Syntax.Precedence
import UiScript.Proofs.Token.Pruning
import UiScript.Proofs.Types.Compatibility
import UiScript.Proofs.Types.Frames
import UiScript.Serve.Response
