import DesignCompiler.Component.Registry
import DesignCompiler.Files.Path
import DesignCompiler.Options.Basic

namespace DesignCompiler.Output

structure ComponentText where
  name : String
  instanceName : String
  fileName : String
  markup : String
  styles : String
  props : Table String := []
  imports : List Import := []
  deriving Repr, DecidableEq

def ComponentText.ofComponent (c : Component) : ComponentText where
  name := c.name
  instanceName := c.instanceName
  fileName := c.fileName
  markup := c.markup
  styles := c.styles
  props := c.scope.props
  imports := c.scope.imports.values

structure GeneratedFile where
  path : String
  content : String
  overwrite : Bool
  deriving Repr, DecidableEq

def spaced (s : String) : String := "\x7b " ++ s ++ " \x7d"

def importLine (name fileName : String) : String :=
  "import " ++ spaced name ++ " from './" ++ fileName ++ "';"

def reactImport : String := "import React from 'react';"

namespace ComponentText

variable (c : ComponentText)

def header (o : Options) : String :=
  "\n".intercalate (reactImport :: o.imports ++ c.imports.map (fun i => importLine i.name i.fileName)
    ++ [""])

def propsType : String :=
  "\x7b nodeId?: string; " ++ String.join (c.props.map fun (name, type) => name ++ "?: " ++ type ++ "; ")
    ++ "\x7d"

/-- Binds the properties; a component without any needs no line for it. -/
def destructuring : String :=
  if c.props.isEmpty then ""
  else "\tconst " ++ spaced (", ".intercalate c.props.keys) ++ " = props;\n"

/-- Lines three tabs further in; blank ones stay as they are. -/
def indented (text : String) : String :=
  "\n".intercalate ((Text.lines text).map fun line =>
    if Text.trim line = "" then line else "\t\t\t" ++ line)

def body (o : Options) : String :=
  "export const " ++ c.instanceName ++ ": React.FC<" ++ c.propsType ++ "> = " ++ o.decorator
    ++ "(props => \x7b\n"
    ++ c.destructuring
    ++ "\treturn (\n\t\t<>\n"
    ++ indented c.markup
    ++ "\n\t\t\t<style jsx>\x7b`\n"
    ++ Text.template c.styles
    ++ "\n`\x7d</style>\n\t\t</>\n\t);\n\x7d);\n"

def source (o : Options) : String := c.header o ++ "\n" ++ c.body o

def generatedStem (o : Options) : String := c.fileName ++ o.fileSuffix

/-- The shell is written once and then belongs to its user. -/
def shell (o : Options) : String :=
  reactImport ++ "\n" ++ importLine c.instanceName (c.generatedStem o) ++ "\n\nexport const " ++ c.name
    ++ ": typeof " ++ c.instanceName ++ " = props => <" ++ c.instanceName ++ " \x7b...props\x7d />;\n"

def files (o : Options) : List GeneratedFile :=
  [⟨Files.join o.outDir (c.generatedStem o ++ ".tsx"), c.source o, true⟩,
    ⟨Files.join o.outDir (c.fileName ++ ".tsx"), c.shell o, false⟩]

end ComponentText

end DesignCompiler.Output
