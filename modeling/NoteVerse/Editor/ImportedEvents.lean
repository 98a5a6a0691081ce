import NoteVerse.Editor.MusicXmlImporter
import NoteVerse.Lib.Lists

/-!
# The events that the importer reads

Of an event, the importer changes only its notes and its source after it has
read it. The rest, its frame, is what `readNode` takes from a note at the
cursor; the frames of an imported document are those of its notes in the order
of the text (`importMusicXmlToEditorDomain_frames`).
-/

namespace NoteVerse.Editor

open Js Xml Xml.Node MusicXmlImporter

inductive EventKind
  | pitched | explicitRest
  deriving DecidableEq, Repr

/-- An event without its id, its notes and its source. -/
structure EventFrame where
  kind : EventKind
  voiceId : VoiceId
  staffId : StaffId
  position : MusicalPosition
  rhythm : RhythmicValue
  deriving DecidableEq, Repr

/-- The note without its ties. -/
def NoteAtom.untied (atom : NoteAtom) : NoteAtom := { atom with tieIn := none, tieOut := none }

namespace VoiceEvent

def kind : VoiceEvent → EventKind
  | pitched _ => .pitched
  | explicitRest _ => .explicitRest

def frame (event : VoiceEvent) : EventFrame :=
  ⟨event.kind, event.voiceId, event.staffId, event.position, event.rhythm⟩

/-- The event without the ties of its notes. -/
def untied : VoiceEvent → VoiceEvent
  | pitched event => pitched { event with notes := event.notes.map NoteAtom.untied }
  | explicitRest event => explicitRest event

end VoiceEvent

/-- The stem direction that a control gives an event. -/
def NotationControl.stem? : NotationControl → Option (EventId × Option StemDirectionOverride)
  | eventNotation eventId stemDirection => some (eventId, stemDirection)
  | _ => none

namespace MusicXmlImporter

/-! ## Reading the nodes of a measure -/

def readStaffId (context : MeasureContext) (note : Node) : StaffId :=
  toStaffId context.partId (getPositiveInt (note.pathText ["staff"]) 1)

def readVoiceId (context : MeasureContext) (note : Node) : VoiceId :=
  toVoiceId context.partId (getPositiveInt (note.pathText ["voice"]) 1)

/-- The frame of the event that a note starts at a cursor. -/
def readFrame (context : MeasureContext) (cursorTicks : Int) (kind : EventKind) (note : Node) :
    EventFrame where
  kind
  voiceId := readVoiceId context note
  staffId := readStaffId context note
  position :=
    ⟨context.measureId, durationTicksToQuarterRational cursorTicks context.divisions⟩
  rhythm := toRhythmicValue note (getDurationTicks note) context.divisions

/-- The cursor after a node, and the frames of the events it starts. -/
def readNode (context : MeasureContext) (cursorTicks : Int) (node : Node) :
    Int × List EventFrame :=
  if node.hasTag "forward" then (cursorTicks + getDurationTicks node, [])
  else if node.hasTag "backup" then (max 0 (cursorTicks - getDurationTicks node), [])
  else if node.hasTag "note" then
    if node.childrenNamed "chord" ≠ [] then (cursorTicks, [])
    else if node.childrenNamed "rest" ≠ [] then
      (cursorTicks + getDurationTicks node, [readFrame context cursorTicks .explicitRest node])
    else if (toPitch node).isNone then (cursorTicks + getDurationTicks node, [])
    else (cursorTicks + getDurationTicks node, [readFrame context cursorTicks .pitched node])
  else (cursorTicks, [])

def readNodes (context : MeasureContext) : Int → List Node → Int × List EventFrame
  | cursorTicks, [] => (cursorTicks, [])
  | cursorTicks, node :: nodes =>
    let read := readNode context cursorTicks node
    let rest := readNodes context read.1 nodes
    (rest.1, read.2 ++ rest.2)

def readMeasure (partId : PartId) (measureElement : Node × Nat) : List EventFrame :=
  (readNodes (getMeasureContext partId measureElement) 0 measureElement.1.childNodes).2

def readPart (partElement : Node × Nat) : List EventFrame :=
  (partElement.1.childrenNamed "measure").zipIdx.flatMap
    (readMeasure (getPartId partElement.1 partElement.2))

theorem readNodes_append (context : MeasureContext) (cursorTicks : Int) (xs ys : List Node) :
    readNodes context cursorTicks (xs ++ ys) =
      ((readNodes context (readNodes context cursorTicks xs).1 ys).1,
        (readNodes context cursorTicks xs).2 ++
          (readNodes context (readNodes context cursorTicks xs).1 ys).2) := by
  induction xs generalizing cursorTicks with
  | nil => rfl
  | cons x xs ih => simp only [List.cons_append, readNodes, ih, List.append_assoc]

/-! ## What the steps of the importer keep -/

/-- `s'` is `s` with more events, of the given frames; the notes and sources
of the events may have changed. -/
structure Extends (s s' : ImportState) (frames : List EventFrame) : Prop where
  events : s'.events.map VoiceEvent.frame = s.events.map VoiceEvent.frame ++ frames
  measures : s'.measures = s.measures
  parts : s'.parts = s.parts

theorem Extends.refl (s : ImportState) : Extends s s [] := ⟨by simp, rfl, rfl⟩

theorem Extends.trans {s₁ s₂ s₃ : ImportState} {frames frames' : List EventFrame}
    (h : Extends s₁ s₂ frames) (h' : Extends s₂ s₃ frames') :
    Extends s₁ s₃ (frames ++ frames') where
  events := by rw [h'.events, h.events, List.append_assoc]
  measures := h'.measures.trans h.measures
  parts := h'.parts.trans h.parts

theorem pushNote_extends (s : ImportState) (index : Nat) (atom : NoteAtom) :
    Extends s { s with events := s.events.modify index (pushNote atom) } [] where
  events := (Lists.map_modify (fun event => by rcases event with _ | _ <;> rfl) _ _).trans
    (List.append_nil _).symm
  measures := rfl
  parts := rfl

theorem ensureStaff_extends (s : ImportState) (partId : PartId) (staffNumber : Int) :
    Extends s (ensureStaff s partId staffNumber) [] := by
  rw [ensureStaff]
  split_ifs
  · exact .refl s
  · exact ⟨by simp, rfl, rfl⟩

theorem ensureVoice_extends (s : ImportState) (partId : PartId) (staffId : StaffId)
    (voiceNumber : Int) : Extends s (ensureVoice s partId staffId voiceNumber) [] := by
  rw [ensureVoice]
  split_ifs
  · exact .refl s
  · exact ⟨by simp, rfl, rfl⟩

theorem addStemNotationControl_extends (s : ImportState) (eventId : EventId) (note : Node) :
    Extends s (addStemNotationControl s eventId note) [] := by
  rw [addStemNotationControl]
  split
  · exact .refl s
  · exact ⟨by simp, rfl, rfl⟩

/-! ## Ties, slurs and beams -/

/-- `s'` is `s` with other ties, slurs and beams. -/
structure Touches (s s' : ImportState) : Prop where
  events : s'.events.map VoiceEvent.untied = s.events.map VoiceEvent.untied
  stems : s'.notationControls.filterMap NotationControl.stem? =
    s.notationControls.filterMap NotationControl.stem?
  measures : s'.measures = s.measures
  parts : s'.parts = s.parts

theorem Touches.refl (s : ImportState) : Touches s s := ⟨rfl, rfl, rfl, rfl⟩

theorem Touches.trans {s₁ s₂ s₃ : ImportState} (h : Touches s₁ s₂) (h' : Touches s₂ s₃) :
    Touches s₁ s₃ :=
  ⟨h'.events.trans h.events, h'.stems.trans h.stems, h'.measures.trans h.measures,
    h'.parts.trans h.parts⟩

variable {s s' : ImportState} {atom : NoteAtom} {ref : NoteRef} {partId : PartId}
  {measureIndex : Nat} {staffNumber : Int} {voiceId : VoiceId} {note : Node}
  {context : MeasureContext} {m m' : MeasureState}

/-- What does not show ties is kept. -/
theorem Touches.map (h : Touches s s') {α : Type} {g : VoiceEvent → α}
    (hg : ∀ event, g event.untied = g event) : s'.events.map g = s.events.map g := by
  have hmap := congrArg (List.map g) h.events
  rw [List.map_map, List.map_map] at hmap
  have hcomp : g ∘ VoiceEvent.untied = g := funext hg
  rwa [hcomp] at hmap

theorem Touches.extends (h : Touches s s') : Extends s s' [] where
  events := (h.map fun event => by rcases event with _ | _ <;> rfl).trans (List.append_nil _).symm
  measures := h.measures
  parts := h.parts

theorem map_untied_modifyNote {f : NoteAtom → NoteAtom} (hf : ∀ atom, (f atom).untied = atom.untied)
    (ref : NoteRef) (events : List VoiceEvent) :
    (modifyNote ref f events).map VoiceEvent.untied = events.map VoiceEvent.untied := by
  refine Lists.map_modify (fun event => ?_) _ _
  rcases event with event | event
  · simp only [VoiceEvent.untied]
    rw [Lists.map_modify hf]
  · rfl

theorem stopTie_touches {tieKey : String}
    (h : stopTie s atom ref tieKey partId measureIndex = .ok s') : Touches s s' := by
  rw [stopTie] at h
  split at h
  · obtain rfl := pure_eq_ok.mp h
    exact .refl s
  · obtain ⟨relationship, -, h⟩ := bind_eq_ok.mp h
    obtain rfl := pure_eq_ok.mp h
    refine ⟨?_, ?_, rfl, rfl⟩
    · refine (map_untied_modifyNote ?_ _ _).trans (map_untied_modifyNote ?_ _ _)
      · exact fun _ => rfl
      · exact fun _ => rfl
    · simp [NotationControl.stem?]

theorem addTieRelationshipEvent_touches
    (h : addTieRelationshipEvent s atom ref staffNumber voiceId note partId measureIndex = .ok s') :
    Touches s s' := by
  rw [addTieRelationshipEvent] at h
  obtain ⟨s₁, h₁, h⟩ := bind_eq_ok.mp h
  have hstop : Touches s s₁ := by
    split_ifs at h₁
    · exact stopTie_touches h₁
    · obtain rfl := pure_eq_ok.mp h₁
      exact .refl s
  obtain rfl := pure_eq_ok.mp h
  split_ifs
  · exact ⟨hstop.events, hstop.stems, hstop.measures, hstop.parts⟩
  · exact hstop

theorem addSlur_touches {slur : Node}
    (h : addSlur atom ref staffNumber partId measureIndex s slur = .ok s') : Touches s s' := by
  simp only [addSlur] at h
  split_ifs at h
  · split at h
    · obtain rfl := pure_eq_ok.mp h
      exact .refl s
    · obtain ⟨relationship, -, h⟩ := bind_eq_ok.mp h
      obtain rfl := pure_eq_ok.mp h
      refine ⟨rfl, ?_, rfl, rfl⟩
      simp [NotationControl.stem?]
  · obtain rfl := pure_eq_ok.mp h
    exact ⟨rfl, rfl, rfl, rfl⟩
  · obtain rfl := pure_eq_ok.mp h
    exact .refl s

theorem addSlurRelationshipEvent_touches
    (h : addSlurRelationshipEvent s atom ref staffNumber note partId measureIndex = .ok s') :
    Touches s s' := by
  rw [addSlurRelationshipEvent] at h
  generalize note.path ["notations", "slur"] = slurs at h
  induction slurs generalizing s with
  | nil =>
    obtain rfl := pure_eq_ok.mp h
    exact .refl s
  | cons slur slurs ih =>
    obtain ⟨s₁, h₁, h⟩ := bind_eq_ok.mp ((List.foldlM_cons ..).symm.trans h)
    exact (addSlur_touches h₁).trans (ih h)

theorem addBeamRelationshipEvent_touches {eventId : EventId}
    (h : addBeamRelationshipEvent s eventId voiceId note partId measureIndex = .ok s') :
    Touches s s' := by
  rw [addBeamRelationshipEvent] at h
  split at h
  · obtain rfl := pure_eq_ok.mp h
    exact ⟨rfl, rfl, rfl, rfl⟩
  · split at h
    · obtain rfl := pure_eq_ok.mp h
      exact .refl s
    · obtain rfl := pure_eq_ok.mp h
      exact ⟨rfl, rfl, rfl, rfl⟩
  · split at h
    · obtain rfl := pure_eq_ok.mp h
      exact .refl s
    · dsimp only at h
      split_ifs at h
      · obtain rfl := pure_eq_ok.mp h
        exact ⟨rfl, rfl, rfl, rfl⟩
      · obtain ⟨relationship, -, h⟩ := bind_eq_ok.mp h
        obtain rfl := pure_eq_ok.mp h
        exact ⟨rfl, rfl, rfl, rfl⟩
  · obtain rfl := pure_eq_ok.mp h
    exact .refl s

/-! ## The loop over the nodes of a measure -/

theorem importChordMember_extends {atom : Option NoteAtom}
    (h : importChordMember context m note atom staffNumber voiceId = .ok m') :
    m'.cursorTicks = m.cursorTicks ∧ Extends m.state m'.state [] := by
  unfold importChordMember at h
  split at h
  · obtain ⟨s₁, h₁, h⟩ := bind_eq_ok.mp h
    obtain ⟨s₂, h₂, h⟩ := bind_eq_ok.mp h
    obtain rfl := pure_eq_ok.mp h
    exact ⟨rfl, (pushNote_extends m.state _ _).trans
      ((addTieRelationshipEvent_touches h₁).trans (addSlurRelationshipEvent_touches h₂)).extends⟩
  · obtain rfl := pure_eq_ok.mp h
    exact ⟨rfl, .refl _⟩

theorem importRest_extends {rest : ExplicitRestEvent} {durationTicks : Int} {frame : EventFrame}
    (hs : m.state = s) (hf : (VoiceEvent.explicitRest rest).frame = frame) :
    Extends s (importRest m rest durationTicks).state [frame] := by
  subst hs hf
  exact ⟨by simp [importRest, createExplicitRestEvent], rfl, rfl⟩

theorem importRootNote_extends {input : PitchedEvent} {durationTicks : Int}
    (h : importRootNote context m note input atom staffNumber durationTicks = .ok m') :
    m'.cursorTicks = m.cursorTicks + durationTicks ∧
      Extends m.state m'.state [(VoiceEvent.pitched input).frame] := by
  obtain ⟨event, h₀, h⟩ := bind_eq_ok.mp h
  obtain ⟨s₁, h₁, h⟩ := bind_eq_ok.mp h
  obtain ⟨s₂, h₂, h⟩ := bind_eq_ok.mp h
  obtain ⟨s₃, h₃, h⟩ := bind_eq_ok.mp h
  obtain rfl := pure_eq_ok.mp h
  have hevent : event.frame = (VoiceEvent.pitched input).frame := by
    rw [createPitchedEvent] at h₀
    split_ifs at h₀
    obtain rfl := pure_eq_ok.mp h₀
    rfl
  have hpush : Extends m.state { m.state with events := m.state.events ++ [event] }
      [event.frame] := ⟨by simp, rfl, rfl⟩
  refine ⟨rfl, hevent ▸ ?_⟩
  exact (hpush.trans (addStemNotationControl_extends _ _ _)).trans
    (((addTieRelationshipEvent_touches h₁).trans (addSlurRelationshipEvent_touches h₂)).trans
      (addBeamRelationshipEvent_touches h₃)).extends

theorem importNote_extends {nodeIndex : Nat} (hnote : note.hasTag "note")
    (h : importNote context m note nodeIndex = .ok m') :
    m'.cursorTicks = (readNode context m.cursorTicks note).1 ∧
      Extends m.state m'.state (readNode context m.cursorTicks note).2 := by
  have hforward : note.hasTag "forward" = false := Bool.eq_false_iff.mpr fun hf => by
    have := (hasTag_iff.mp hnote).2.symm.trans (hasTag_iff.mp hf).2
    exact absurd this (by decide)
  have hbackup : note.hasTag "backup" = false := Bool.eq_false_iff.mpr fun hb => by
    have := (hasTag_iff.mp hnote).2.symm.trans (hasTag_iff.mp hb).2
    exact absurd this (by decide)
  have hensure := (ensureStaff_extends m.state context.partId
    (getPositiveInt (note.pathText ["staff"]) 1)).trans
    (ensureVoice_extends _ context.partId (readStaffId context note)
      (getPositiveInt (note.pathText ["voice"]) 1))
  rw [readNode, hforward, hbackup, hnote, if_neg (by decide), if_neg (by decide), if_pos rfl]
  simp only [importNote] at h
  split_ifs at h with hchord hrest
  · obtain ⟨hcursor, hstate⟩ := importChordMember_extends h
    rw [if_pos hchord]
    exact ⟨hcursor, hensure.trans hstate⟩
  · obtain rfl := pure_eq_ok.mp h
    rw [if_neg hchord, if_pos hrest]
    refine ⟨rfl, hensure.trans ?_⟩
    exact importRest_extends rfl rfl
  · rw [if_neg hchord, if_neg hrest]
    rcases hpitch : toPitch note with - | pitch
    · simp only [toNoteAtom, hpitch, Option.map_none] at h
      obtain rfl := pure_eq_ok.mp h
      exact ⟨rfl, hensure⟩
    · simp only [toNoteAtom, hpitch, Option.map_some] at h
      obtain ⟨hcursor, hstate⟩ := importRootNote_extends h
      exact ⟨hcursor, hensure.trans hstate⟩

theorem importNode_extends {node : Node × Nat} (h : importNode context m node = .ok m') :
    m'.cursorTicks = (readNode context m.cursorTicks node.1).1 ∧
      Extends m.state m'.state (readNode context m.cursorTicks node.1).2 := by
  rw [importNode] at h
  split_ifs at h with hforward hbackup hnote
  · obtain rfl := pure_eq_ok.mp h
    rw [readNode, if_pos hforward]
    exact ⟨rfl, .refl _⟩
  · obtain rfl := pure_eq_ok.mp h
    rw [readNode, if_neg hforward, if_pos hbackup]
    exact ⟨rfl, .refl _⟩
  · exact importNote_extends hnote h
  · obtain rfl := pure_eq_ok.mp h
    rw [readNode, if_neg hforward, if_neg hbackup, if_neg hnote]
    exact ⟨rfl, .refl _⟩

/-- The loop over the nodes reads them in order. -/
theorem importNodes_extends {nodes : List (Node × Nat)}
    (h : nodes.foldlM (importNode context) m = .ok m') :
    m'.cursorTicks = (readNodes context m.cursorTicks (nodes.map Prod.fst)).1 ∧
      Extends m.state m'.state (readNodes context m.cursorTicks (nodes.map Prod.fst)).2 := by
  induction nodes generalizing m with
  | nil =>
    obtain rfl := pure_eq_ok.mp h
    exact ⟨rfl, .refl _⟩
  | cons node nodes ih =>
    obtain ⟨m₁, h₁, h⟩ := bind_eq_ok.mp ((List.foldlM_cons ..).symm.trans h)
    obtain ⟨hcursor, hstate⟩ := importNode_extends h₁
    obtain ⟨hcursor', hstate'⟩ := ih h
    rw [hcursor] at hcursor' hstate'
    exact ⟨hcursor', hstate.trans hstate'⟩

/-! ## Measures and parts -/

/-- A measure enters its id and its events. -/
theorem importMeasure_spec {measureElement : Node × Nat}
    (h : importMeasure partId s measureElement = .ok s') :
    Extends (setMeasure partId (getMeasureNumber measureElement.1 measureElement.2) s) s'
      (readMeasure partId measureElement) := by
  obtain ⟨m, hm, h⟩ := bind_eq_ok.mp h
  obtain ⟨gaps, -, h⟩ := bind_eq_ok.mp h
  obtain rfl := pure_eq_ok.mp h
  have hread := (importNodes_extends hm).2
  rw [List.zipIdx_map_fst] at hread
  exact ⟨hread.events, hread.measures, hread.parts⟩

/-- The measures that the elements of a part enter. -/
def partMeasures (partElement : Node × Nat) : List Measure :=
  (partElement.1.childrenNamed "measure").zipIdx.map fun measureElement =>
    let number := getMeasureNumber measureElement.1 measureElement.2
    ⟨toMeasureId (getPartId partElement.1 partElement.2) number, number⟩

/-- `measures.set(measure.id, measure)` for each of the measures. -/
def setMeasures (measures : JsMap MeasureId Measure) (entered : List Measure) :
    JsMap MeasureId Measure :=
  entered.foldl (fun measures measure => measures.set measure.id measure) measures

theorem setMeasures_append (measures : JsMap MeasureId Measure) (xs ys : List Measure) :
    setMeasures measures (xs ++ ys) = setMeasures (setMeasures measures xs) ys :=
  List.foldl_append

/-- A part enters its measures and their events. -/
theorem importPart_spec {partNames : JsMap PartId String} {partElement : Node × Nat}
    (h : importPart partNames s partElement = .ok s') :
    s'.events.map VoiceEvent.frame = s.events.map VoiceEvent.frame ++ readPart partElement ∧
      s'.measures = setMeasures s.measures (partMeasures partElement) ∧
      ∃ name, s'.parts = s.parts ++ [⟨getPartId partElement.1 partElement.2, name⟩] := by
  have hmeasures : ∀ (elements : List (Node × Nat)) (s₁ : ImportState),
      elements.foldlM (importMeasure (getPartId partElement.1 partElement.2)) s₁ = .ok s' →
      s'.events.map VoiceEvent.frame = s₁.events.map VoiceEvent.frame ++
          elements.flatMap (readMeasure (getPartId partElement.1 partElement.2)) ∧
        s'.measures = setMeasures s₁.measures (elements.map fun measureElement =>
          let number := getMeasureNumber measureElement.1 measureElement.2
          ⟨toMeasureId (getPartId partElement.1 partElement.2) number, number⟩) ∧
        s'.parts = s₁.parts := by
    intro elements
    induction elements with
    | nil =>
      intro s₁ h
      obtain rfl := pure_eq_ok.mp h
      exact ⟨by simp, rfl, rfl⟩
    | cons element elements ih =>
      intro s₁ h
      obtain ⟨s₂, h₂, h⟩ := bind_eq_ok.mp ((List.foldlM_cons ..).symm.trans h)
      have hone := importMeasure_spec h₂
      obtain ⟨hevents, hset, hparts⟩ := ih s₂ h
      refine ⟨?_, ?_, hparts.trans hone.parts⟩
      · rw [hevents, hone.events, List.flatMap_cons, List.append_assoc]
        rfl
      · rw [hset, hone.measures]
        rfl
  obtain ⟨hevents, hset, hparts⟩ := hmeasures _ _ h
  exact ⟨hevents, hset, _, hparts⟩

/-- The measures that a text enters, part by part. -/
def documentMeasures (xmlDoc : Node) : List (List Measure) :=
  (getPartElements xmlDoc).zipIdx.map partMeasures

theorem importParts_spec {partNames : JsMap PartId String} {elements : List (Node × Nat)}
    (h : elements.foldlM (importPart partNames) s = .ok s') :
    s'.events.map VoiceEvent.frame =
        s.events.map VoiceEvent.frame ++ elements.flatMap readPart ∧
      s'.measures = setMeasures s.measures (elements.map partMeasures).flatten ∧
      s'.parts.map Part.id =
        s.parts.map Part.id ++ elements.map fun e => getPartId e.1 e.2 := by
  induction elements generalizing s with
  | nil =>
    obtain rfl := pure_eq_ok.mp h
    exact ⟨by simp, rfl, by simp⟩
  | cons element elements ih =>
    obtain ⟨s₁, h₁, h⟩ := bind_eq_ok.mp ((List.foldlM_cons ..).symm.trans h)
    obtain ⟨hevents₁, hset₁, name, hparts₁⟩ := importPart_spec h₁
    obtain ⟨hevents, hset, hparts⟩ := ih h
    refine ⟨?_, ?_, ?_⟩
    · rw [hevents, hevents₁, List.append_assoc, List.flatMap_cons]
    · rw [hset, hset₁, List.map_cons, List.flatten_cons, setMeasures_append]
    · rw [hparts, hparts₁]
      simp

end MusicXmlImporter

open MusicXmlImporter

/-- What an imported document takes from the text: the frames of its events,
its measures and the ids of its parts. -/
theorem importMusicXmlToEditorDomain_spec {xml : Node} {result : MusicXmlImportResult}
    (h : importMusicXmlToEditorDomain xml = .ok result) :
    result.document.events.map VoiceEvent.frame = (getPartElements xml).zipIdx.flatMap readPart ∧
      result.document.measures = (setMeasures .empty (documentMeasures xml).flatten).values ∧
      result.document.parts.map Part.id =
        (getPartElements xml).zipIdx.map fun e => getPartId e.1 e.2 := by
  obtain ⟨xmlDoc, hparse, h⟩ := bind_eq_ok.mp h
  obtain ⟨s, hs, h⟩ := bind_eq_ok.mp h
  obtain rfl := pure_eq_ok.mp h
  obtain rfl : xml = xmlDoc := by
    rw [parseMusicXml] at hparse
    split_ifs at hparse
    exact pure_eq_ok.mp hparse
  obtain ⟨hevents, hmeasures, hparts⟩ := importParts_spec hs
  refine ⟨hevents, ?_, hparts⟩
  show s.measures.values = _
  rw [hmeasures]
  rfl

end NoteVerse.Editor
