import DesignCompiler.Vector.Surroundings

namespace DesignCompiler.Vector

def isRelative (n : Node) (property : String) (default : Bool) : Bool :=
  match n.property? property with
  | some "objectBoundingBox" => true
  | some "userSpaceOnUse" => false
  | _ => default

def isSolid (object : Option Extent) : Bool := object.any Extent.isSolid

def clipHolds (measure : Measuring) (s : Surroundings) (object : Option Extent) :
    (links : Nat) → List String → Node → Bool
  | 0, _, _ => false
  | links + 1, opened, n =>
    match { s with opened }.target? (n.property? "clip-path") with
    | none => true
    | some (id, clip) =>
      let opened := id :: opened
      let transformed := (clip.property? "transform").all fun t => (Transform.parse? t).any (·.isUsable)
      let inside := { s with inClip := true, opened }
      clip.kind = "clipPath" && transformed
        && (!isRelative clip "clipPathUnits" false || isSolid object)
        && clipHolds measure s object links opened clip
        && clip.children.any fun c => (measure inside .identity c).isSome

def hasRegion (s : Surroundings) (n : Node) (relative : Bool) : Bool :=
  let edge (name : String) (direction : Direction) (percent : Float) : Float32 :=
    let l := (n.length? name).getD ⟨percent, .percent⟩
    if relative && l.unit = .percent then l.number.toFloat32 / 100
    else l.pixels direction s.view n.letters
  let region := Extent.ofSize? (edge "x" .across (-10)) (edge "y" .down (-10))
    (edge "width" .across 120) (edge "height" .down 120)
  region.any Extent.isSolid

def maskHolds (measure : Measuring) (s : Surroundings) (object : Option Extent) :
    (links : Nat) → List String → Node → Bool
  | 0, _, _ => false
  | links + 1, opened, n =>
    match { s with opened }.target? (n.property? "mask") with
    | none => true
    | some (id, mask) =>
      let opened := id :: opened
      let relative := isRelative mask "maskUnits" true
      let relativeContent := isRelative mask "maskContentUnits" false
      mask.kind = "mask" && hasRegion s mask relative
        && (((relative || relativeContent) && !isSolid object)
          || (maskHolds measure s object links opened mask
            && (relative || mask.children.any fun c => (measure { s with opened } .identity c).isSome)))

def filterSteps : List String :=
  ["feBlend", "feColorMatrix", "feComponentTransfer", "feComposite", "feConvolveMatrix",
    "feDiffuseLighting", "feDisplacementMap", "feDropShadow", "feFlood", "feGaussianBlur", "feImage",
    "feMerge", "feMorphology", "feOffset", "feSpecularLighting", "feTile", "feTurbulence"]

def filterWithContents? (s : Surroundings) : (links : Nat) → Node → Option Node
  | 0, _ => none
  | links + 1, n =>
    if n.kind != "filter" then none
    else if !n.children.isEmpty then some n
    else do
      let id ← link? (← n.property? "href")
      filterWithContents? s links (← s.named.lookup id)

def filterWorks (s : Surroundings) (object : Option Extent) (filter : Node) : Bool :=
  let relative := isRelative filter "filterUnits" true
  hasRegion s filter relative && (!relative || isSolid object)
    && (filterWithContents? s (s.named.length + 1) filter).any fun n =>
      n.children.any fun c => filterSteps.contains c.kind

inductive FilterItem where
  | link (name : String)
  | function

def filterFunctions : List String :=
  ["blur", "brightness", "contrast", "drop-shadow", "grayscale", "hue-rotate", "invert", "opacity",
    "saturate", "sepia"]

def skipArguments : (level : Nat) → List Char → Option (List Char)
  | _, [] => none
  | level, '(' :: rest => skipArguments (level + 1) rest
  | 0, ')' :: rest => some rest
  | level + 1, ')' :: rest => skipArguments level rest
  | level, _ :: rest => skipArguments level rest

def Scan.filterItem : Scan FilterItem := do
  let name ← word
  spaces
  if name = "url" then return .link (← linkArgument)
  need '('
  if !filterFunctions.contains name then failure
  match skipArguments 0 (← get) with
  | some rest => set rest
  | none => failure
  return .function

/-- Whether the filters of a node leave it there: a missing or idle one takes it away unless another one
works. -/
def filterHolds (s : Surroundings) (object : Option Extent) (n : Node) : Bool :=
  let items := (n.property? "filter").bind fun f =>
    Scan.all? (Scan.repeated Scan.filterItem (f.length + 1)) f
  let works : FilterItem → Bool
    | .link id => (s.named.lookup id).any (filterWorks s object)
    | .function => isSolid object
  let broken : FilterItem → Bool
    | .link id => !(s.named.lookup id).any (filterWorks s object)
    | .function => false
  match items with
  | some items => items.any works || !items.any broken
  | none => true

end DesignCompiler.Vector
