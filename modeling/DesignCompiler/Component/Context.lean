import DesignCompiler.Assets.Resources
import DesignCompiler.Plugin.Basic
import DesignCompiler.Text.Basic
import DesignCompiler.Tree

namespace DesignCompiler

structure Context where
  forest : Forest
  options : Options
  resources : Assets.Resources
  descriptions : Table String
  plugins : PluginSet := {}

namespace Context

/-- The styles in the description of a node, after their mark; `\n` stands for a line feed. -/
def descriptionStyles? (ctx : Context) (node : Node) : Option String := do
  let key := node.attrs.componentId.getD node.attrs.id
  let description ← ctx.descriptions.lookup key
  let (_, styles) ← Text.splitOnce? ctx.options.styleDelimiter description
  let styles := Text.trim (Text.replace "\\n" "\n" styles)
  if styles = "" then none else some styles

end Context

end DesignCompiler
