import NoteVerse.Lib.Grouping
import NoteVerse.Lib.Python
import NoteVerse.Lib.Xml
import NoteVerse.Practice.StableIds

/-!
# What a score says of its notes

`_musicxml_note_metadata` of `score_timeline.py` on the element tree of a score;
the tags of its elements have their namespaces in braces, as `ElementTree` has
them. No two notes have one locator (`metadata_of_locator`).
-/

namespace NoteVerse.Practice.ScoreTimeline

open Js Xml

/-- `_MusicXmlNoteMetadata` -/
structure MusicXmlNoteMetadata where
  staffId : String
  voiceId : String
  measureNumber : String
  semanticLocator : String
  tieTypes : List String
  deriving DecidableEq, Repr

/-- `_local_name` -/
def localName (tag : String) : String := Python.afterLast '\x7d' tag

/-- `list(element)` -/
def elements (node : Node) : List Node := node.childNodes.filter Node.isElement

/-- `_direct_children_by_local_name`, and `findall` of a name in any namespace. -/
def directChildrenByLocalName (node : Node) (name : String) : List Node :=
  (elements node).filter fun child => localName child.tagName = name

/-- `child.text or ""`: what stands before the first element. -/
def leadingText (node : Node) : String :=
  "".intercalate ((node.childNodes.takeWhile fun child => !child.isElement).map Node.textContent)

/-- `_child_text` -/
def childText (parent : Node) (childName : String) : String :=
  match (directChildrenByLocalName parent childName).head? with
  | none => ""
  | some child => Python.strip (leadingText child)

/-- The types of the ties of a note. -/
def tieTypes (note : Node) : List String :=
  ((directChildrenByLocalName note "tie").map fun tie =>
    Python.strip ((tie.getAttribute "type").getD "")).filter (· ≠ "")

/-- What a note says, at its place in the score. -/
def noteMetadata (measure note : Node) (partIndex measureIndex selectableIndex : Nat) :
    MusicXmlNoteMetadata where
  staffId := childText note "staff"
  voiceId := childText note "voice"
  measureNumber := (measure.getAttribute "number").getD ""
  semanticLocator := noteLocator partIndex measureIndex selectableIndex
  tieTypes := tieTypes note

/-- An entry of the metadata, if the element is a note with an id. -/
def metadataEntry (measure element : Node) (partIndex measureIndex selectableIndex : Nat) :
    Option (String × MusicXmlNoteMetadata) :=
  if localName element.tagName ≠ "note" then none
  else
    match element.getAttribute "id" with
    | none => none
    | some noteId =>
      if noteId = "" then none
      else some (noteId, noteMetadata measure element partIndex measureIndex selectableIndex)

/-- The notes and the forwards of a measure. -/
def selectables (measure : Node) : List Node :=
  (elements measure).filter fun element =>
    localName element.tagName = "note" ∨ localName element.tagName = "forward"

/-- The entries in document order, each with its place. -/
def metadataEntries (root : Node) : List (String × MusicXmlNoteMetadata) :=
  ((directChildrenByLocalName root "part").zipIdx 1).flatMap fun part =>
    ((directChildrenByLocalName part.1 "measure").zipIdx 1).flatMap fun measure =>
      ((selectables measure.1).zipIdx 1).filterMap fun element =>
        metadataEntry measure.1 element.1 part.2 measure.2 element.2

/-- `_musicxml_note_metadata`, with no root where there is no path or the file
cannot be read. -/
def musicXmlNoteMetadata (root : Option Node) : JsMap String MusicXmlNoteMetadata :=
  match root with
  | none => JsMap.empty
  | some root => JsMap.empty.ofEntries (metadataEntries root)

theorem get_of_mem_zipIdx {α : Type} {xs : List α} {x : α} {i : Nat} (h : (x, i) ∈ xs.zipIdx 1) :
    xs[i - 1]? = some x := by
  obtain ⟨-, hlt, hx⟩ := List.mem_zipIdx h
  rw [hx, List.getElem?_eq_getElem]

/-- Where an entry stands. -/
theorem place_of_mem {root : Node} {e : String × MusicXmlNoteMetadata}
    (he : e ∈ metadataEntries root) :
    ∃ p m n : Nat, e.2.semanticLocator = noteLocator p m n ∧
      ∃ part measure element, (directChildrenByLocalName root "part")[p - 1]? = some part ∧
        (directChildrenByLocalName part "measure")[m - 1]? = some measure ∧
        (selectables measure)[n - 1]? = some element ∧
        e.2 = noteMetadata measure element p m n := by
  unfold metadataEntries at he
  simp only [List.mem_flatMap, List.mem_filterMap, Prod.exists] at he
  obtain ⟨part, p, hpart, measure, m, hmeasure, element, n, helement, hentry⟩ := he
  have hmetadata : e.2 = noteMetadata measure element p m n := by
    unfold metadataEntry at hentry
    split_ifs at hentry
    split at hentry
    · exact absurd hentry (by simp)
    · split_ifs at hentry
      rw [← Option.some.inj hentry]
  refine ⟨p, m, n, by rw [hmetadata]; rfl, part, measure, element, get_of_mem_zipIdx hpart,
    get_of_mem_zipIdx hmeasure, get_of_mem_zipIdx helement, hmetadata⟩

theorem mem_entries_of_get {root : Option Node} {noteId : String} {metadata : MusicXmlNoteMetadata}
    (h : (musicXmlNoteMetadata root).get noteId = some metadata) :
    ∃ r, root = some r ∧ (noteId, metadata) ∈ metadataEntries r := by
  cases root with
  | none => exact absurd h (by simp [musicXmlNoteMetadata])
  | some r => exact ⟨r, rfl, (JsMap.mem_or_of_get_ofEntries h).resolve_right (by simp)⟩

/-- The locator of a note is one. -/
theorem exists_locator {root : Option Node} {noteId : String} {metadata : MusicXmlNoteMetadata}
    (h : (musicXmlNoteMetadata root).get noteId = some metadata) :
    ∃ p m n : Nat, metadata.semanticLocator = noteLocator p m n := by
  obtain ⟨r, -, hmem⟩ := mem_entries_of_get h
  obtain ⟨p, m, n, hlocator, -⟩ := place_of_mem hmem
  exact ⟨p, m, n, hlocator⟩

/-- A locator names one note. -/
theorem metadata_of_locator {root : Option Node} {id₁ id₂ : String}
    {metadata₁ metadata₂ : MusicXmlNoteMetadata}
    (h₁ : (musicXmlNoteMetadata root).get id₁ = some metadata₁)
    (h₂ : (musicXmlNoteMetadata root).get id₂ = some metadata₂)
    (h : metadata₁.semanticLocator = metadata₂.semanticLocator) : metadata₁ = metadata₂ := by
  obtain ⟨r, rfl, hmem₁⟩ := mem_entries_of_get h₁
  obtain ⟨r', hr, hmem₂⟩ := mem_entries_of_get h₂
  obtain rfl := Option.some.inj hr
  obtain ⟨p, m, n, hlocator₁, part, measure, element, hpart, hmeasure, helement, heq₁⟩ :=
    place_of_mem hmem₁
  obtain ⟨p', m', n', hlocator₂, part', measure', element', hpart', hmeasure', helement', heq₂⟩ :=
    place_of_mem hmem₂
  rw [hlocator₁, hlocator₂] at h
  obtain ⟨rfl, rfl, rfl⟩ := noteLocator_inj h
  obtain rfl := Option.some.inj (hpart.symm.trans hpart')
  obtain rfl := Option.some.inj (hmeasure.symm.trans hmeasure')
  obtain rfl := Option.some.inj (helement.symm.trans helement')
  exact heq₁.trans heq₂.symm

end NoteVerse.Practice.ScoreTimeline
