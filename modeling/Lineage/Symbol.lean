import Lineage.Position
import Lineage.Symbol.Kind

set_option autoImplicit false

/-! # Document symbols

The outline of a document as a language server reports it: a forest of named symbols, each with its
kind, the range of its whole definition and the range of its name. -/

namespace Lineage

/-- A symbol of a document outline with the symbols inside it. -/
structure DocumentSymbol where
  name : String
  /-- More about the symbol, such as a signature. -/
  detail : Option String
  kind : SymbolKind
  /-- The whole definition. -/
  range : Range
  /-- The name within the definition. -/
  selection : Range
  children : List DocumentSymbol

end Lineage
