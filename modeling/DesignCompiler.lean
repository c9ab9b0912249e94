import DesignCompiler.Assets.Ledger
import DesignCompiler.Assets.Reference
import DesignCompiler.Assets.Resolve
import DesignCompiler.Assets.Resources
import DesignCompiler.Bytes.Base64
import DesignCompiler.Bytes.Utf8
import DesignCompiler.Bytes.Word
import DesignCompiler.CommandLine.Arguments
import DesignCompiler.CommandLine.Run
import DesignCompiler.CommandLine.SavedDocument
import DesignCompiler.Component.Build
import DesignCompiler.Component.Context
import DesignCompiler.Component.Registry
import DesignCompiler.Component.Rendered
import DesignCompiler.Component.Scope
import DesignCompiler.Component.Visit
import DesignCompiler.Decimal.Binary
import DesignCompiler.Decimal.Fixed
import DesignCompiler.Decimal.Reading
import DesignCompiler.Decimal.Shortest
import DesignCompiler.Error
import DesignCompiler.Files.Basic
import DesignCompiler.Files.Memory
import DesignCompiler.Files.Path
import DesignCompiler.Geometry
import DesignCompiler.Json.Basic
import DesignCompiler.Json.Parser
import DesignCompiler.Json.Printer
import DesignCompiler.Json.Record
import DesignCompiler.Main
import DesignCompiler.Markup.Element
import DesignCompiler.Markup.Printer
import DesignCompiler.Markup.Sanitize
import DesignCompiler.Markup.Style
import DesignCompiler.Markup.Transcode
import DesignCompiler.Options.Basic
import DesignCompiler.Options.Json
import DesignCompiler.Output.Compile
import DesignCompiler.Output.Source
import DesignCompiler.Params
import DesignCompiler.Picture.ContentType
import DesignCompiler.Picture.Drawing
import DesignCompiler.Picture.Gif
import DesignCompiler.Picture.Jpeg
import DesignCompiler.Picture.Png
import DesignCompiler.Picture.Size
import DesignCompiler.Picture.Stated
import DesignCompiler.Picture.Webp
import DesignCompiler.Placement.Bounds
import DesignCompiler.Placement.Recipe
import DesignCompiler.Plugin.Basic
import DesignCompiler.Plugin.Content
import DesignCompiler.Plugin.Style
import DesignCompiler.Plugin.Text
import DesignCompiler.Scene.Basic
import DesignCompiler.Scene.Decode
import DesignCompiler.Scene.Encode
import DesignCompiler.Scene.Names
import DesignCompiler.Source.Conversation
import DesignCompiler.Source.Response
import DesignCompiler.Style.Map
import DesignCompiler.Style.Paint
import DesignCompiler.StyleSheet.Declaration
import DesignCompiler.StyleSheet.Rule
import DesignCompiler.StyleSheet.Selector
import DesignCompiler.StyleSheet.Token
import DesignCompiler.Table
import DesignCompiler.Text.Basic
import DesignCompiler.Text.Case
import DesignCompiler.Text.CaseTable
import DesignCompiler.Text.Cluster
import DesignCompiler.Text.ClusterTable
import DesignCompiler.Text.Runs
import DesignCompiler.Text.Template
import DesignCompiler.Text.Words
import DesignCompiler.Tree
import DesignCompiler.Tree.Buckets
import DesignCompiler.Tree.Normalize
import DesignCompiler.Vector.Arc
import DesignCompiler.Vector.Attributes
import DesignCompiler.Vector.Bounds
import DesignCompiler.Vector.Effect
import DesignCompiler.Vector.Extent
import DesignCompiler.Vector.Image
import DesignCompiler.Vector.Length
import DesignCompiler.Vector.Marker
import DesignCompiler.Vector.Node
import DesignCompiler.Vector.Outline
import DesignCompiler.Vector.PathData
import DesignCompiler.Vector.Scan
import DesignCompiler.Vector.Shape
import DesignCompiler.Vector.Size
import DesignCompiler.Vector.Surroundings
import DesignCompiler.Vector.Transform
import DesignCompiler.Vector.ViewBox
import DesignCompiler.Xml.Document
import DesignCompiler.Xml.Name
import DesignCompiler.Xml.Position
import DesignCompiler.Xml.Reference
import DesignCompiler.Xml.Token
import DesignCompiler.Xml.Tree
import DesignCompiler.Proofs.Tables
import DesignCompiler.Proofs.Registry
import DesignCompiler.Proofs.Calls
import DesignCompiler.Proofs.Growth
import DesignCompiler.Proofs.Independence
import DesignCompiler.Proofs.Blocks
import DesignCompiler.Proofs.Pipeline
import DesignCompiler.Proofs.Guards
import DesignCompiler.Proofs.Links
import DesignCompiler.Proofs.Masks
import DesignCompiler.Proofs.Displayed
import DesignCompiler.Proofs.Replacement
import DesignCompiler.Proofs.Siblings
import DesignCompiler.Proofs.Visits
import DesignCompiler.Proofs.Edits
import DesignCompiler.Proofs.Imports
import DesignCompiler.Proofs.Tags
import DesignCompiler.Proofs.Traversal
import DesignCompiler.Proofs.Compilation
import DesignCompiler.Proofs.Pruning
import DesignCompiler.Proofs.Collection
import DesignCompiler.Proofs.Lockstep
import DesignCompiler.Proofs.Queries
import DesignCompiler.Proofs.Failures
import DesignCompiler.Proofs.Answers
import DesignCompiler.Proofs.Strictness
import DesignCompiler.Proofs.Origins
import DesignCompiler.Proofs.Recursion
import DesignCompiler.Proofs.Batches
import DesignCompiler.Proofs.Requests
import DesignCompiler.Proofs.Serving
import DesignCompiler.Proofs.Stems
import DesignCompiler.Proofs.Paths
import DesignCompiler.Proofs.Numerals
import DesignCompiler.Proofs.Rereading
import DesignCompiler.Proofs.Records
import DesignCompiler.Proofs.Encoding
import DesignCompiler.Proofs.Writes
import DesignCompiler.Proofs.Shells
import DesignCompiler.Proofs.Bodies
import DesignCompiler.Proofs.Histories
import DesignCompiler.Proofs.Entries
import DesignCompiler.Proofs.Written
import DesignCompiler.Proofs.Threads
import DesignCompiler.Proofs.Bindings
import DesignCompiler.Proofs.Elements
import DesignCompiler.Proofs.Classes
import DesignCompiler.Proofs.Flattening
import DesignCompiler.Proofs.Splitting
import DesignCompiler.Proofs.Layers
import DesignCompiler.Proofs.Mirroring
import DesignCompiler.Proofs.Matching
import DesignCompiler.Proofs.Insertion
import DesignCompiler.Proofs.Occurrences
import DesignCompiler.Proofs.Segments
import DesignCompiler.Proofs.Delimiting
import DesignCompiler.Proofs.Fallbacks
import DesignCompiler.Proofs.Spans
import DesignCompiler.Proofs.Gaps
import DesignCompiler.Proofs.Truncation
import DesignCompiler.Proofs.Offsets
import DesignCompiler.Proofs.Literals
import DesignCompiler.Proofs.Bares
import DesignCompiler.Proofs.Sanitizing
import DesignCompiler.Proofs.Transcoding
import DesignCompiler.Proofs.Names
import DesignCompiler.Proofs.Leaves
import DesignCompiler.Proofs.Declarations
import DesignCompiler.Proofs.Overlays
import DesignCompiler.Proofs.Presets
import DesignCompiler.Proofs.Resolutions
import DesignCompiler.Proofs.Prologs
import DesignCompiler.Proofs.Roots
import DesignCompiler.Proofs.Stretching
import DesignCompiler.Proofs.Identifiers
import DesignCompiler.Proofs.Confinement
import DesignCompiler.Proofs.Spellings
import DesignCompiler.Proofs.ClassNames
import DesignCompiler.Proofs.Arenas
import DesignCompiler.Proofs.Termination
import DesignCompiler.Proofs.Nesting
