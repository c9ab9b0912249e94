import DesignCompiler.Json.Record
import DesignCompiler.Options.Basic
import DesignCompiler.Scene.Decode
import DesignCompiler.Scene.Encode

namespace DesignCompiler

open Json

instance : Named ImageMode where
  all := [.remote, .file, .inline]
  name
    | .remote => "remote"
    | .file => "local"
    | .inline => "inline"

instance : Named ImageFormat where
  all := [.png, .jpg, .svg]
  name := ImageFormat.extension

def Delimiters.decode? (json : Json) : Option Delimiters := do
  let given ← record? ["slot", "pair", "keyValue", "nested"] json
  return {
    slot := ← withDefault? given "slot" "??" string?
    pair := ← withDefault? given "pair" "&" string?
    keyValue := ← withDefault? given "keyValue" "=" string?
    nested := ← withDefault? given "nested" "." string? }

def Delimiters.encode (d : Delimiters) : Json :=
  .object [("slot", .string d.slot), ("pair", .string d.pair), ("keyValue", .string d.keyValue),
    ("nested", .string d.nested)]

namespace Options

def fields : List String :=
  ["outDir", "classPrefix", "delimiters", "styleDescriptionDelimiter", "imports", "decorator",
    "instanceSuffix", "fileSuffix", "imageMode", "imageFormat", "imageScale", "imageDir",
    "imageUrlPrefix", "strictMarkup"]

def decode? (json : Json) : Option Options := do
  let given ← record? fields json
  let default : Options := {}
  return {
    outDir := ← withDefault? given "outDir" default.outDir string?
    classPrefix := ← withDefault? given "classPrefix" default.classPrefix string?
    delimiters := ← withDefault? given "delimiters" default.delimiters Delimiters.decode?
    styleDelimiter :=
      ← withDefault? given "styleDescriptionDelimiter" default.styleDelimiter string?
    imports := ← withDefault? given "imports" default.imports (list? string?)
    decorator := ← withDefault? given "decorator" default.decorator string?
    instanceSuffix := ← withDefault? given "instanceSuffix" default.instanceSuffix string?
    fileSuffix := ← withDefault? given "fileSuffix" default.fileSuffix string?
    imageMode := ← withDefault? given "imageMode" default.imageMode Named.decode?
    imageFormat := ← withDefault? given "imageFormat" default.imageFormat Named.decode?
    imageScale := ← withDefault? given "imageScale" default.imageScale float?
    imageDir := ← withDefault? given "imageDir" default.imageDir string?
    imageUrlPrefix := ← withDefault? given "imageUrlPrefix" default.imageUrlPrefix string?
    strictMarkup := ← withDefault? given "strictMarkup" default.strictMarkup bool? }

def encode (o : Options) : Json :=
  .object [("outDir", .string o.outDir), ("classPrefix", .string o.classPrefix),
    ("delimiters", o.delimiters.encode), ("styleDescriptionDelimiter", .string o.styleDelimiter),
    ("imports", .array (o.imports.map .string)), ("decorator", .string o.decorator),
    ("instanceSuffix", .string o.instanceSuffix), ("fileSuffix", .string o.fileSuffix),
    ("imageMode", Named.encode o.imageMode), ("imageFormat", Named.encode o.imageFormat),
    ("imageScale", float o.imageScale), ("imageDir", .string o.imageDir),
    ("imageUrlPrefix", .string o.imageUrlPrefix), ("strictMarkup", .bool o.strictMarkup)]

end Options

end DesignCompiler
