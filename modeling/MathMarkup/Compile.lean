import MathMarkup.Layout.Basic
import MathMarkup.Parser.Basic
import MathMarkup.Registry.Standard

/-!
# Compiling formulas

Text becomes nodes, nodes become a tree, and the tree is written out.  Each step
also gives what was reported, the newest first.

## Main definitions

* `Environment.parse` — the nodes of a text.
* `Environment.tree` — its tree.
* `Environment.render` — its written form.
-/

namespace MathMarkup

namespace Environment

/-- The nodes of a text. -/
def parse (env : Environment) (source : String) : Except CompileError (List Node) × Log :=
  let (result, p) := ((Parser.ofText source).report [.parsing source.utf8ByteSize]).document env
  (result, p.log)

/-- The tree of a text. -/
def tree (env : Environment) (source : String) : Except CompileError Markup × Log :=
  match env.parse source with
  | (.error e, log) => (.error e, log)
  | (.ok nodes, log) =>
      (env.registry.formulaMarkup env.options source nodes, .building nodes.length :: log)

/-- The written form of a text. -/
def render (env : Environment) (source : String) : Except CompileError String × Log :=
  match env.tree source with
  | (.error e, log) => (.error e, log)
  | (.ok m, log) =>
      let written := m.serialize
      (.ok written, .serialized written.utf8ByteSize :: log)

end Environment

/-- The version of the compiler. -/
def version : String := "0.1.0"

end MathMarkup
