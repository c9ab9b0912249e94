import DesignCompiler.Assets.Ledger
import DesignCompiler.Assets.Resources
import DesignCompiler.Picture.ContentType
import DesignCompiler.Picture.Drawing
import DesignCompiler.Picture.Size
import DesignCompiler.Source.Conversation

namespace DesignCompiler.Assets

/-- The markup of a vector picture with a root that stretches to its box, unless the root says how it
keeps its shape. -/
def stretchChars (markup : List Char) : List Char :=
  match Text.cut? "<svg".toList markup with
  | none => markup
  | some (before, rest) =>
    let tag := rest.takeWhile (· != '>')
    if (Text.cut? "preserveAspectRatio".toList tag).isSome then markup
    else before ++ "<svg preserveAspectRatio=\"none\"".toList ++ rest

def stretch (markup : String) : String := .ofList (stretchChars markup.toList)

structure Fetched where
  url : String
  body : Resource

/-- Fetches every URL once. All of them are asked for before the first answer is looked at. -/
def fetchAll (urls : List String) : Asking (Table Resource) := do
  let urls := urls.eraseDups
  let answers ← ExceptT.lift (urls.mapM fun url => Conversation.pose (.fetch url))
  let bodies ← (answers.mapM id : Except FetchError (List Resource))
  return urls.zip bodies

def fetchEach (urls : Table String) : Asking (Table Fetched) := do
  let bodies ← fetchAll urls.values
  return urls.filterMap fun (key, url) => (bodies.lookup url).map fun body => (key, ⟨url, body⟩)

def exportUrl? (exports : Table (Option String)) (id : String) : Option String :=
  (exports.lookup id).join

def withUrls (url? : String → Option String) (keys : List String) : Table String :=
  keys.filterMap fun key => (url? key).map fun url => (key, url)

/-- Exports with absolute bounds go before those without. -/
def fetchVectors (ids : List String) : Asking (Table Fetched) := do
  if ids.isEmpty then return []
  let absolute ← ExceptT.lift (.pose (.exports (.svg ids true)))
  let relative ← ExceptT.lift (.pose (.exports (.svg ids false)))
  let absolute ← (absolute : Except FetchError (Table (Option String)))
  let relative ← (relative : Except FetchError (Table (Option String)))
  fetchEach (withUrls (fun id => (exportUrl? absolute id).or (exportUrl? relative id)) ids)

def fetchImages (refs : List String) : Asking (Table Fetched) := do
  if refs.isEmpty then return []
  let fills ← Question.ask .fills
  fetchEach (withUrls (fun ref => fills.lookup ref) refs)

def fetchMasks (o : Options) (ids : List String) : Asking (Table Fetched) := do
  if ids.isEmpty then return []
  let exports ← Question.ask (.exports (.raster ids o.imageFormat o.imageScale))
  fetchEach (withUrls (exportUrl? exports) ids)

def Fetched.contentType (f : Fetched) : String :=
  Picture.contentType f.body.bytes f.body.contentType

def Fetched.reference (o : Options) (key : String) (f : Fetched) : Reference :=
  .resolve o key (some f.url) f.body.bytes f.contentType

def Fetched.markup (f : Fetched) : String := stretch (Bytes.lossyText f.body.bytes)

def Fetched.vectorReference (o : Options) (key : String) (f : Fetched) : Reference :=
  .resolve o key (some f.url) (Bytes.ofString f.markup) "image/svg+xml"

def Fetched.image (o : Options) (key : String) (f : Fetched) : Image :=
  let size := Picture.size? f.body.bytes
  { sourceUrl := f.url, url := (f.reference o key).url, bytes := f.body.bytes
    contentType := f.contentType, width := size.map Prod.fst, height := size.map Prod.snd }

structure Progress where
  ledger : Ledger := []
  markup : Table String := []

/-- How assets are resolved: with some options, and a way to draw markup at a scale. -/
structure Resolver where
  options : Options
  rasterize : Picture.Rasterizer

namespace Resolver

variable (r : Resolver)

/-- The reference to a mask: to its export, or else to what is drawn from its vector markup. Markup that
cannot be drawn is passed over, unless it closes its root twice. -/
def maskReference? (exported : Table Fetched) (markup : Table String) (id : String) :
    Except MarkupError (Option Reference) :=
  match exported.lookup id, markup.lookup id with
  | some f, _ => .ok (some (f.reference r.options id))
  | none, none => .ok none
  | none, some m =>
    match r.rasterize m r.options.imageScale with
    | .ok png => .ok (some (.resolve r.options id none png "image/png"))
    | .error .closedTwice => .error (.closedTwice id)
    | .error _ => .ok none

def resources (vectors images : Table Fetched) (masks : Table Reference) : Resources :=
  let vectorRefs := vectors.map fun (id, f) => (id, f.vectorReference r.options id)
  let imageRefs := images.map fun (ref, f) => f.reference r.options ref
  { vectors := vectors.map fun (id, f) => (id, f.markup)
    vectorUrls := vectorRefs.map fun (id, reference) => (id, reference.url)
    images := images.map fun (ref, f) => (ref, f.image r.options ref)
    masks := masks.map fun (id, reference) => (id, reference.url)
    emitted :=
      (Table.values vectorRefs ++ imageRefs ++ masks.values).filterMap Reference.emitted? }

/-- Resolves a batch: vectors and the pictures that fill shapes first, then masks. Only keys that no batch has claimed
before are asked for; claims are kept when the batch fails. -/
def resolve (request : Request) (progress : Progress) :
    Conversation (Except DesignError Resources × Progress) := do
  let (vectorIds, ledger) := Ledger.claim "vector" request.vectors progress.ledger
  let (imageRefs, ledger) := Ledger.claim "image" request.images ledger
  let (maskIds, ledger) := Ledger.claim "mask" request.masks ledger
  let progress := { progress with ledger }
  match ← ExceptT.run (do return (← fetchVectors vectorIds, ← fetchImages imageRefs)) with
  | .error e => return (.error (.fetch e), progress)
  | .ok (vectors, images) =>
    let markup := Table.putAll (vectors.map fun (id, f) => (id, f.markup)) progress.markup
    let progress := { progress with markup }
    match ← (fetchMasks r.options maskIds).run with
    | .error e => return (.error (.fetch e), progress)
    | .ok exported =>
      match maskIds.mapM (r.maskReference? exported markup) with
      | .error e => return (.error (.markup e), progress)
      | .ok references =>
        let masks := (maskIds.zip references).filterMap fun (id, reference) => reference.map (id, ·)
        return (.ok (r.resources vectors images masks), progress)

end Resolver

end DesignCompiler.Assets
