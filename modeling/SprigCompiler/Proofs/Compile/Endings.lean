import SprigCompiler.Proofs.Guarded.Compilation
import SprigCompiler.Proofs.Parser.Unspanned
import SprigCompiler.Proofs.Token.Endings

/-!
Compilation and line breaks.

Outside of strings it makes no difference to the compiler and to its diagnostics whether a line ends
with a newline or with a carriage return and a newline.
-/

namespace SprigCompiler

open Spanned (unspanned)

/-- What is read from a text does not change but for bytes when missing carriage returns are
added. -/
theorem unspanned_parse_returned (content : String) :
    unspanned (parse (returned content)) = unspanned (parse content) := by
  rcases Spanned.outcomes_of_unspanned (ofText?_returned content) with
    ⟨tokens, others, read, readReturned, same⟩ | ⟨error, other, stray, strayReturned, same⟩
  · rw [parse_eq_of_tokens read, parse_eq_of_tokens readReturned]
    exact Parse.program_unspanned (Source.endPosition_returned content) same
  · rw [parse_eq_of_stray stray, parse_eq_of_stray strayReturned]
    obtain rfl : other = error := same
    rfl

private theorem text_eq_of_unspanned {tree other : Node} (same : unspanned other = unspanned tree) :
    other.text = tree.text := by
  rw [← Node.text_relocated unspanned other, ← Node.text_relocated unspanned tree]
  exact congrArg Node.text same

private theorem javascript?_eq_of_unspanned {tree other : Node}
    (same : unspanned other = unspanned tree) : other.javascript? = tree.javascript? := by
  rw [← Node.javascript?_relocated unspanned other, ← Node.javascript?_relocated unspanned tree]
  exact congrArg Node.javascript? same

private theorem renderError_returned {error other : ParseError}
    (same : unspanned other = unspanned error) (color : Bool) (content : String) :
    renderError color (returned content) other = renderError color content error := by
  have message : other.message = error.message := by
    rw [← Spanned.message_unspanned other, same, Spanned.message_unspanned]
  have position : other.position = error.position := by
    rw [← Spanned.position_unspanned other, same, Spanned.position_unspanned]
  unfold renderError
  rw [message, position, Diagnostic.render_returned]

/-- Line endings outside of strings do not matter.  When every newline there that has no carriage
return gets one, the text is the same program: each node stands at the same line and column, only
the bytes are counted anew, and the symbolic expression and the JavaScript stay the same.  Or the
text fails as before, with the same error at the same line and column and the same diagnostic. -/
theorem parse_returned (content : String) :
    (∃ tree other javascript, parse content = .ok tree ∧ parse (returned content) = .ok other ∧
      unspanned other = unspanned tree ∧ other.text = tree.text ∧
      tree.javascript? = some javascript ∧ other.javascript? = some javascript) ∨
    ∃ error other, parse content = .error error ∧ parse (returned content) = .error other ∧
      unspanned other = unspanned error ∧
      ∀ color,
        renderError color (returned content) other = renderError color content error := by
  rcases Spanned.outcomes_of_unspanned (unspanned_parse_returned content) with
    ⟨tree, other, parsed, parsedReturned, same⟩ | ⟨error, other, failed, failedReturned, same⟩
  · obtain ⟨javascript, written⟩ := (Parse.parse_obtainable parsed).allowed.writable 0
    rw [← Node.javascript?_eq] at written
    exact .inl ⟨tree, other, javascript, parsed, parsedReturned, same, text_eq_of_unspanned same,
      written, (javascript?_eq_of_unspanned same).trans written⟩
  · exact .inr ⟨error, other, failed, failedReturned, same, fun color =>
      renderError_returned same color content⟩

end SprigCompiler
