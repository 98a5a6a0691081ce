import NoteVerse.Lib.FreshName
import NoteVerse.Lib.JsNumber
import NoteVerse.Lib.Python
import NoteVerse.Lib.XmlAddress

/-!
# The ids of notes and forwards

`prepare_musicxml_ids_for_practice` of `practice_alignment/musicxml_stable_ids.py`
and `ensureGenericRenderMusicXmlIds` of `lib/musicxml/generic-render-ids.ts`.

Both write no other attribute that they read than `id`, and leave the tree as it
is; so a document is its tree with the `id` of each element apart, and an element is
its address. A tag is the local name of an element. The browser's mark of a
generated id, and the text that is made of the document, are left out.

A set is the list of what was added to it.
-/

namespace NoteVerse.MusicXml

open Xml

/-- The ids of a document's elements, with what the functions keep beside. -/
structure IdRun where
  ids : Address → Option String
  usedIds : List String
  changed : Bool

/-- The document as it comes. -/
def IdRun.start (root : Node) : IdRun where
  ids address := (root.at? address).bind (·.getAttribute "id")
  usedIds := []
  changed := false

/-! ## What both do -/

def isIdStart (c : Char) : Bool := c.isAlpha || c = '_'

def isIdBody (c : Char) : Bool := c.isAlphanum || c = '_' || c = '.' || c = '-'

/-- `sanitizeXmlId`, with the strip of its language. -/
def sanitizeWith (strip : String → String) (value : String) : String :=
  let result := (strip value).toList.map fun c => if isIdBody c then c else '-'
  match result with
  | [] => "nv-entity"
  | c :: _ => if isIdStart c then .ofList result else "nv-" ++ .ofList result

/-- `createUniqueMusicXmlId` -/
def createUniqueWith (strip : String → String) (baseId : String) (usedIds : List String) : String :=
  let sanitized := sanitizeWith strip baseId
  let numbered := fun suffix : Nat => sanitized ++ "-" ++ Nat.repr suffix
  if sanitized ∉ usedIds then sanitized else numbered (FreshName.first usedIds numbered 2)

def signatureOf (part measure : Nat) (tag : String) (event : Nat) : String :=
  "nv-p" ++ Nat.repr part ++ "-m" ++ Nat.repr measure ++ "-" ++ tag ++ Nat.repr event

/-- The id that an element has is kept; it is empty if it has none. -/
def Keeps (strip : String → String) (usedIds : List String) (existing : String) : Prop :=
  existing ≠ "" ∧ sanitizeWith strip existing = existing ∧ existing ∉ usedIds

instance (strip : String → String) (usedIds : List String) (existing : String) :
    Decidable (Keeps strip usedIds existing) := inferInstanceAs (Decidable (_ ∧ _))

/-- The id that an element gets. -/
def nextId (strip : String → String) (usedIds : List String) (existing signature : String) :
    String :=
  let sanitizedExisting := if existing = "" then "" else sanitizeWith strip existing
  if Keeps strip usedIds existing then existing
  else
    createUniqueWith strip (if sanitizedExisting = "" then signature else sanitizedExisting) usedIds

/-- What the loops do with an element. -/
def IdRun.assign (strip : String → String) (run : IdRun) (address : Address) (signature : String) :
    IdRun :=
  let existing := (run.ids address).getD ""
  let next := nextId strip run.usedIds existing signature
  if Keeps strip run.usedIds existing then { run with usedIds := run.usedIds ++ [next] }
  else
    { ids := Function.update run.ids address (some next)
      usedIds := run.usedIds ++ [next]
      changed := true }

/-! ## The backend -/

def isEvent (node : Node) : Bool := node.hasTag "note" || node.hasTag "forward"

section

variable (partIndex measureIndex : Nat)

/-- The loop over the elements of a measure, from the child node `index` on. -/
def prepareEvents (measure : Address) :
    (index selectableIndex : Nat) → List Node → IdRun → IdRun
  | _, _, [], run => run
  | index, selectableIndex, node :: nodes, run =>
    if isEvent node then
      prepareEvents measure (index + 1) (selectableIndex + 1) nodes
        (run.assign Python.strip (measure ++ [index])
          (signatureOf partIndex measureIndex node.tagName (selectableIndex + 1)))
    else prepareEvents measure (index + 1) selectableIndex nodes run

end

/-- The loop over the measures of a part. -/
def prepareMeasures (partIndex : Nat) (part : Address) :
    (index measureIndex : Nat) → List Node → IdRun → IdRun
  | _, _, [], run => run
  | index, measureIndex, node :: nodes, run =>
    if node.hasTag "measure" then
      prepareMeasures partIndex part (index + 1) (measureIndex + 1) nodes
        (prepareEvents partIndex measureIndex (part ++ [index]) 0 0 node.childNodes run)
    else prepareMeasures partIndex part (index + 1) measureIndex nodes run

/-- The loop over the parts of the root. -/
def prepareParts : (index partIndex : Nat) → List Node → IdRun → IdRun
  | _, _, [], run => run
  | index, partIndex, node :: nodes, run =>
    if node.hasTag "part" then
      prepareParts (index + 1) (partIndex + 1) nodes
        (prepareMeasures partIndex [index] 0 1 node.childNodes run)
    else prepareParts (index + 1) partIndex nodes run

def prepareMusicxmlIdsForPractice (root : Node) : IdRun :=
  prepareParts 0 1 root.childNodes (.start root)

/-! ## The browser -/

section

variable (root : Node)

/-- The `localName` of an element in lower case; the names that it is compared with
are those of ASCII letters. -/
def localName (node : Node) : String := node.tagName.toLower

def directChildrenByName (parent : Address) (names : List String) : List Address :=
  match root.at? parent with
  | none => []
  | some node =>
    (node.childNodes.zipIdx.filter fun child =>
      child.1.isElement && names.contains (localName child.1)).map fun child => parent ++ [child.2]

def oneBasedOrdinal (items : List Address) (element : Address) : Nat :=
  match items.idxOf? element with
  | some index => index + 1
  | none => 1

/-- `element.closest(tag)` -/
def closest (tag : String) (element : Address) : Option Address :=
  element.inits.reverse.find? fun address => (root.at? address).any (·.hasTag tag)

def getElementSignature (element : Address) : String :=
  let measure := closest root "measure" element
  let part := closest root "part" element
  let partOrdinal :=
    match part with
    | some (index :: rest) =>
      let part := index :: rest
      oneBasedOrdinal (directChildrenByName root part.dropLast ["part"]) part
    | _ => 1
  let measureOrdinal :=
    match part, measure with
    | some part, some measure => oneBasedOrdinal (directChildrenByName root part ["measure"]) measure
    | _, _ => 1
  let eventOrdinal :=
    match measure with
    | some measure => oneBasedOrdinal (directChildrenByName root measure ["note", "forward"]) element
    | none => 1
  signatureOf partOrdinal measureOrdinal (((root.at? element).map localName).getD "") eventOrdinal

/-- `querySelectorAll('note, forward')` -/
def eventAddresses : List Address := Node.addressesOf isEvent [] root

def ensureGenericRenderMusicXmlIds : IdRun :=
  (eventAddresses root).foldl
    (fun run element => run.assign Js.trim element (getElementSignature root element)) (.start root)

end

end NoteVerse.MusicXml
