import NoteVerse.Editor.ExportedParts

/-!
# Reading the measures of an export

The importer's cursor follows the exporter's: it reads each event of a voice at
the later of the cursor and the start of the event (`readTicks`), and starts
each voice at zero (`readNodes_createVoicesElements`). The marks of notes and
the line breaks between tags play no part in it (`readNodes_marked`).
-/

namespace NoteVerse.Editor

open Js Xml Xml.Node MusicXmlImporter

/-! ## Numbers -/

theorem rtakeWhile_append_digits {p : Char → Bool} {c : Char} (hc : p c = false)
    (xs : List Char) {ds : List Char} (hds : ∀ d ∈ ds, p d) :
    (xs ++ c :: ds).rtakeWhile p = ds ∧ (xs ++ c :: ds).rdropWhile p = xs ++ [c] := by
  have htake : ∀ d ∈ ds.reverse, p d := fun d hd => hds d (List.mem_reverse.mp hd)
  have hneg : ¬ p c = true := by rw [hc]; decide
  constructor
  · rw [List.rtakeWhile, List.reverse_append, List.reverse_cons, List.append_assoc,
      List.takeWhile_append_of_pos htake, List.singleton_append, List.takeWhile_cons_of_neg hneg,
      List.append_nil, List.reverse_reverse]
  · rw [List.rdropWhile, List.reverse_append, List.reverse_cons, List.append_assoc,
      List.dropWhile_append_of_pos htake, List.singleton_append, List.dropWhile_cons_of_neg hneg,
      List.reverse_cons, List.reverse_reverse]

/-- The number in the id of a voice. -/
theorem voiceIdDigits_toVoiceId (partId : PartId) (n : Nat) :
    voiceIdDigits (toVoiceId partId n) = some (numberToString n) := by
  have hlist : (toVoiceId partId n).toList =
      (partId.toList ++ ":voice".toList) ++ '-' :: (Nat.repr n).toList := by
    simp [toVoiceId, numberToString_ofNat]
  obtain ⟨htake, hdrop⟩ := rtakeWhile_append_digits (p := Char.isDigit) (c := '-') (by decide)
    (partId.toList ++ ":voice".toList) fun d hd => isDigit_of_mem_natRepr (n := n) hd
  have hsuffix : "voice-".toList.isSuffixOf (partId.toList ++ ":voice".toList ++ ['-']) := by
    rw [List.isSuffixOf_iff_suffix]
    exact ⟨partId.toList ++ [':'], by simp⟩
  rw [voiceIdDigits, hlist, htake, hdrop, if_pos ⟨natRepr_toList_ne_nil n, hsuffix⟩,
    String.ofList_toList, numberToString_ofNat]

variable {voice : Voice} {divisions cursor : Int} {document : ScoreDocument} {event : VoiceEvent}
  {context : MeasureContext} {measure : Measure} {timeSignature : TimeSignature}
  {measureIndex : Nat} {measure' : Node}

theorem getVoiceNumber_of_id (document : ScoreDocument) {partId : PartId} {n : Nat}
    (h : voice.id = toVoiceId partId n) : getVoiceNumber document voice = n := by
  rw [getVoiceNumber, h, voiceIdDigits_toVoiceId]
  simp

/-- A value on the grid of the divisions is written exactly. -/
theorem rationalToTicks_eq {value : Rational} (hv : value.Valid) {ticks : Int}
    (h : value.toRat * divisions = ticks) : rationalToTicks value divisions = ticks := by
  have hd : 0 < value.denominator := hv
  have hne : (value.denominator : ℚ) ≠ 0 := by exact_mod_cast hd.ne'
  have hmul : value.numerator * divisions = ticks * value.denominator := by
    have hq : (value.numerator : ℚ) * divisions = ticks * value.denominator := by
      rw [← h, Rational.toRat, div_mul_eq_mul_div, div_mul_cancel₀ _ hne]
    exact_mod_cast hq
  have hrewrite : 2 * (ticks * value.denominator) + value.denominator =
      value.denominator + ticks * (2 * value.denominator) := by
    have := Int.mul_left_comm ticks 2 value.denominator
    omega
  rw [rationalToTicks, hmul, hrewrite, Int.add_mul_ediv_right _ _ (by omega),
    Int.ediv_eq_zero_of_lt (by omega) (by omega), Int.zero_add]

@[simp] theorem getPositiveInt_numberToString (n fallback : Int) :
    getPositiveInt (some (numberToString n)) fallback = if 0 < n then n else fallback := by
  simp [getPositiveInt]

@[simp] theorem toDurationBase_name (base : DurationBase) :
    toDurationBase (some (trim base.name)) = base := by
  rcases base with _ | _ | _ | _ | _ | _ | _ <;> decide

@[simp] theorem toPitchStep_name (step : PitchStep) :
    toPitchStep (some (trim step.name)) = some step := by
  rcases step with _ | _ | _ | _ | _ | _ | _ <;> decide

/-! ## Marks and line breaks -/

/-- The importer's cursor and events come from the children of a node that are
not marks. -/
theorem readNode_congr {node node' : Node} (htag : ∀ tag, node'.hasTag tag = node.hasTag tag)
    (hchildren : ∀ tag ∉ markTags, node'.childrenNamed tag = node.childrenNamed tag)
    (context : MeasureContext) (cursorTicks : Int) :
    readNode context cursorTicks node' = readNode context cursorTicks node := by
  have hpath : ∀ tag tags, tag ∉ markTags →
      node'.pathText (tag :: tags) = node.pathText (tag :: tags) := by
    intro tag tags ht
    rw [pathText, pathText, path_cons, path_cons, hchildren tag ht]
  have hpitch : toPitch node' = toPitch node := by
    rw [toPitch, toPitch, hpath _ _ (by decide), hpath _ _ (by decide), hpath _ _ (by decide)]
  have hduration : getDurationTicks node' = getDurationTicks node := by
    rw [getDurationTicks, getDurationTicks, hpath _ _ (by decide)]
  have hframe : ∀ kind, readFrame context cursorTicks kind node' =
      readFrame context cursorTicks kind node := by
    intro kind
    rw [readFrame, readFrame, readVoiceId, readVoiceId, readStaffId, readStaffId, toRhythmicValue,
      toRhythmicValue, hpath _ _ (by decide), hpath _ _ (by decide), hpath _ _ (by decide),
      hduration, hchildren "dot" (by decide)]
  rw [readNode, readNode, htag, htag, htag, hchildren "chord" (by decide),
    hchildren "rest" (by decide), hpitch, hduration, hframe, hframe]

theorem readNodes_marked {items items' : List Node} (h : List.Forall₂ SameButMarks items items')
    (context : MeasureContext) (cursorTicks : Int) :
    readNodes context cursorTicks (items'.map breakLines) =
      readNodes context cursorTicks (items.map breakLines) := by
  induction h generalizing cursorTicks with
  | nil => rfl
  | @cons item item' items items' hitem _ ih =>
    have hone : readNode context cursorTicks item'.breakLines =
        readNode context cursorTicks item.breakLines := by
      refine readNode_congr (fun tag => ?_) (fun tag ht => ?_) context cursorTicks
      · rw [hasTag_breakLines, hasTag_breakLines, hitem.hasTag]
      · rw [childrenNamed_breakLines, childrenNamed_breakLines, hitem.childrenNamed tag ht]
    simp only [List.map_cons, readNodes, hone, ih]

theorem readNodes_text (context : MeasureContext) (cursorTicks : Int) (content : String)
    (nodes : List Node) :
    readNodes context cursorTicks (text content :: nodes) = readNodes context cursorTicks nodes :=
  rfl

/-- A reader of the text finds the nodes of the tree. -/
theorem readNodes_breakLines (context : MeasureContext) (cursorTicks : Int) (node : Node) :
    readNodes context cursorTicks node.breakLines.childNodes =
      readNodes context cursorTicks (node.childNodes.map breakLines) := by
  have hbetween : ∀ (nodes : List Node) (afterTag : Bool) (cursorTicks : Int),
      readNodes context cursorTicks (breakLinesBetween afterTag nodes) =
        readNodes context cursorTicks (nodes.map breakLines) := by
    intro nodes
    induction nodes with
    | nil => intro afterTag cursorTicks; cases afterTag <;> rfl
    | cons n nodes ih =>
      intro afterTag cursorTicks
      rw [breakLinesBetween, List.map_cons]
      split_ifs
      · rw [List.singleton_append, newline, readNodes_text]
        simp only [readNodes, ih]
      · rw [List.nil_append]
        simp only [readNodes, ih]
  rcases node with _ | ⟨_, _, _ | _⟩
  · rfl
  · rfl
  · exact hbetween _ true cursorTicks

/-! ## The items of a voice -/

theorem pathText_leaf {node : Node} {tag content : String}
    (h : node.childrenNamed tag = [leaf tag content]) :
    node.breakLines.pathText [tag] = some content := by
  rw [pathText, path_singleton, childrenNamed_breakLines, h]
  simp

theorem readNode_createForwardElement (context : MeasureContext) (cursorTicks : Int)
    {durationTicks : Int} (h : 0 < durationTicks) (voiceNumber staffNumber : Int) :
    readNode context cursorTicks
        (createForwardElement durationTicks voiceNumber staffNumber).breakLines =
      (cursorTicks + durationTicks, []) := by
  have hduration : getDurationTicks (createForwardElement durationTicks voiceNumber
      staffNumber).breakLines = durationTicks := by
    have htext : (createForwardElement durationTicks voiceNumber staffNumber).childrenNamed "duration" =
        [leaf "duration" (numberToString durationTicks)] := rfl
    rw [getDurationTicks, pathText_leaf htext, getPositiveInt_numberToString, if_pos h]
  have hforward : (createForwardElement durationTicks voiceNumber staffNumber).breakLines.hasTag
      "forward" = true := hasTag_breakLines _
  rw [readNode, if_pos hforward, hduration]

theorem readNode_createBackupElement (context : MeasureContext) (cursorTicks : Int)
    {durationTicks : Int} (h : 0 < durationTicks) :
    readNode context cursorTicks (createBackupElement durationTicks).breakLines =
      (max 0 (cursorTicks - durationTicks), []) := by
  have hduration : getDurationTicks (createBackupElement durationTicks).breakLines =
      durationTicks := by
    have htext : (createBackupElement durationTicks).childrenNamed "duration" =
        [leaf "duration" (numberToString durationTicks)] := rfl
    rw [getDurationTicks, pathText_leaf htext, getPositiveInt_numberToString, if_pos h]
  have hforward : (createBackupElement durationTicks).breakLines.hasTag "forward" = false :=
    hasTag_breakLines _
  have hbackup : (createBackupElement durationTicks).breakLines.hasTag "backup" = true :=
    hasTag_breakLines _
  rw [readNode, hforward, if_neg (by decide), if_pos hbackup, hduration]

/-- The number that the importer reads of an exported one. -/
def legibleNumber (n : Int) : Int := if 0 < n then n else 1

/-- What the importer reads in the fields of a note. -/
theorem readNode_noteFields {note : Node} {isChordMember : Bool} {pitch : Option Pitch}
    {durationTicks voiceNumber staffNumber : Int} {rhythmNotation : RhythmNotation}
    (h : NoteFields note isChordMember pitch durationTicks voiceNumber staffNumber rhythmNotation)
    (hduration : 0 ≤ durationTicks) (context : MeasureContext) (cursorTicks : Int) :
    readNode context cursorTicks note.breakLines =
      if isChordMember then (cursorTicks, [])
      else (cursorTicks + durationTicks, [{
        kind := if pitch.isNone then .explicitRest else .pitched
        voiceId := toVoiceId context.partId (legibleNumber voiceNumber)
        staffId := toStaffId context.partId (legibleNumber staffNumber)
        position :=
          ⟨context.measureId, durationTicksToQuarterRational cursorTicks context.divisions⟩
        rhythm :=
          ⟨durationTicksToQuarterRational durationTicks context.divisions, rhythmNotation,
            none⟩ }]) := by
  have hnot : ∀ tag : String, tag ≠ "note" → note.breakLines.hasTag tag = false := fun tag ht => by
    rw [hasTag_breakLines, Bool.eq_false_iff]
    exact fun h' => ht ((hasTag_iff.mp h').2.symm.trans (hasTag_iff.mp h.hasTag).2)
  have hticks : getDurationTicks note.breakLines = durationTicks := by
    rw [getDurationTicks, pathText_leaf h.duration, getPositiveInt_numberToString]
    split_ifs <;> omega
  have hframe : ∀ kind, readFrame context cursorTicks kind note.breakLines =
      { kind
        voiceId := toVoiceId context.partId (legibleNumber voiceNumber)
        staffId := toStaffId context.partId (legibleNumber staffNumber)
        position :=
          ⟨context.measureId, durationTicksToQuarterRational cursorTicks context.divisions⟩
        rhythm :=
          ⟨durationTicksToQuarterRational durationTicks context.divisions, rhythmNotation,
            none⟩ } := by
    intro kind
    have hdots : (note.breakLines.childrenNamed "dot").length = rhythmNotation.dots := by
      rw [childrenNamed_breakLines, h.dot, List.length_map, List.length_replicate]
    rw [readFrame, readVoiceId, readStaffId, toRhythmicValue, hticks, hdots,
      pathText_leaf h.voice, pathText_leaf h.staff, pathText_leaf h.type,
      getPositiveInt_numberToString, getPositiveInt_numberToString, Option.map_some,
      toDurationBase_name]
    rfl
  have hchord : note.breakLines.childrenNamed "chord" ≠ [] ↔ isChordMember := by
    rw [childrenNamed_breakLines, h.chord]
    rcases isChordMember with _ | _ <;> simp
  rw [readNode, hnot _ (by decide), hnot _ (by decide), hasTag_breakLines, h.hasTag,
    if_neg (by decide), if_neg (by decide), if_pos rfl]
  simp only [hchord, hticks, hframe]
  rw [childrenNamed_breakLines, h.rest]
  rcases pitch with _ | pitch
  · simp
  · have hpitch : (toPitch note.breakLines).isNone = false := by
      have hstep : note.breakLines.pathText ["pitch", "step"] = some pitch.step.name := by
        rw [pathText, path_cons, childrenNamed_breakLines, h.pitch]
        simp [createPitchElement, path_singleton, createElement]
      rw [toPitch, hstep, Option.map_some, toPitchStep_name]
      rfl
    simp [hpitch]

/-! ## Voices -/

def VoiceEvent.startTicks (event : VoiceEvent) (divisions : Int) : Int :=
  rationalToTicks event.position.offset divisions

def VoiceEvent.durationTicks (event : VoiceEvent) (divisions : Int) : Int :=
  rationalToTicks event.rhythm.timelineDuration divisions

/-- An event of a voice whose ids and numbers read back. -/
structure Writable (document : ScoreDocument) (partId : PartId) (divisions : Int) (voice : Voice)
    (event : VoiceEvent) : Prop where
  notes : ∀ pitched, event = .pitched pitched → pitched.notes ≠ []
  voiceId : event.voiceId = toVoiceId partId (getVoiceNumber document voice)
  voiceNumber : 0 < getVoiceNumber document voice
  staffId : event.staffId = toStaffId partId (getStaffNumber document event.staffId)
  staffNumber : 0 < getStaffNumber document event.staffId
  duration : 0 ≤ event.durationTicks divisions

/-- The events of a voice, each with the tick at which a reader finds it. -/
def readTicks (divisions : Int) : Int → List VoiceEvent → List (VoiceEvent × Int)
  | _, [] => []
  | cursor, event :: events =>
    let tick := max cursor (event.startTicks divisions)
    (event, tick) :: readTicks divisions (tick + event.durationTicks divisions) events

theorem map_fst_readTicks (divisions cursor : Int) (events : List VoiceEvent) :
    (readTicks divisions cursor events).map Prod.fst = events := by
  induction events generalizing cursor with
  | nil => rfl
  | cons event events ih => rw [readTicks, List.map_cons, ih]

theorem le_of_mem_readTicks {events : List VoiceEvent}
    (hduration : ∀ event ∈ events, 0 ≤ event.durationTicks divisions) :
    ∀ found ∈ readTicks divisions cursor events,
      cursor ≤ found.2 ∧ found.1.startTicks divisions ≤ found.2 := by
  induction events generalizing cursor with
  | nil => simp [readTicks]
  | cons event events ih =>
    obtain ⟨hevent, hevents⟩ := List.forall_mem_cons.mp hduration
    refine List.forall_mem_cons.mpr ⟨⟨le_max_left .., le_max_right ..⟩, fun found hf => ?_⟩
    obtain ⟨hcursor, hstart⟩ := ih hevents found hf
    exact ⟨by omega, hstart⟩

/-- A reader finds every event at its start if and only if each starts after
those before it have ended. -/
theorem readTicks_exact_iff {events : List VoiceEvent}
    (hduration : ∀ event ∈ events, 0 ≤ event.durationTicks divisions) :
    (∀ found ∈ readTicks divisions cursor events, found.2 = found.1.startTicks divisions) ↔
      (∀ event ∈ events, cursor ≤ event.startTicks divisions) ∧ events.Pairwise fun a b =>
        a.startTicks divisions + a.durationTicks divisions ≤ b.startTicks divisions := by
  induction events generalizing cursor with
  | nil => simp [readTicks]
  | cons event events ih =>
    obtain ⟨hevent, hevents⟩ := List.forall_mem_cons.mp hduration
    rw [readTicks, List.forall_mem_cons, ih hevents, List.forall_mem_cons, List.pairwise_cons]
    constructor
    · rintro ⟨hfirst, hrest, hpairwise⟩
      have hcursor : max cursor (event.startTicks divisions) = event.startTicks divisions := hfirst
      refine ⟨⟨by omega, fun later hl => ?_⟩, fun later hl => ?_, hpairwise⟩
      · have := hrest later hl
        omega
      · have := hrest later hl
        omega
    · rintro ⟨⟨hfirst, hrest⟩, hends, hpairwise⟩
      have hcursor : max cursor (event.startTicks divisions) = event.startTicks divisions := by
        omega
      refine ⟨hcursor, fun later hl => ?_, hpairwise⟩
      have := hends later hl
      have := hrest later hl
      omega

/-- The frame that the importer reads of an event found at a tick. -/
def frameAt (context : MeasureContext) (divisions : Int) (found : VoiceEvent × Int) : EventFrame where
  kind := found.1.kind
  voiceId := found.1.voiceId
  staffId := found.1.staffId
  position := ⟨context.measureId, durationTicksToQuarterRational found.2 context.divisions⟩
  rhythm :=
    ⟨durationTicksToQuarterRational (found.1.durationTicks divisions) context.divisions,
      found.1.rhythm.rhythmNotation, none⟩

/-- An event that has elements, with a duration that reads back. -/
structure Legible (divisions : Int) (event : VoiceEvent) : Prop where
  notes : ∀ pitched, event = .pitched pitched → pitched.notes ≠ []
  duration : 0 ≤ event.durationTicks divisions

/-- The frame that the importer reads of an event found at a tick, with the ids made of the
numbers that it reads. -/
def frameFor (document : ScoreDocument) (voice : Voice) (context : MeasureContext)
    (divisions : Int) (found : VoiceEvent × Int) : EventFrame :=
  { frameAt context divisions found with
    voiceId := toVoiceId context.partId (legibleNumber (getVoiceNumber document voice))
    staffId := toStaffId context.partId (legibleNumber (getStaffNumber document found.1.staffId)) }

theorem Writable.legible {partId : PartId} (h : Writable document partId divisions voice event) :
    Legible divisions event := ⟨h.notes, h.duration⟩

theorem Writable.frameFor_eq (h : Writable document context.partId divisions voice event)
    (cursorTicks : Int) :
    frameFor document voice context divisions (event, cursorTicks) =
      frameAt context divisions (event, cursorTicks) := by
  rw [frameFor, legibleNumber, legibleNumber, if_pos h.voiceNumber, if_pos h.staffNumber,
    ← h.voiceId, ← h.staffId]
  rfl

/-- A node and nodes after it that neither move the cursor nor start events. -/
theorem readNodes_root {cursorTicks : Int} {node : Node} {result : Int × List EventFrame}
    {nodes : List Node} (hnode : readNode context cursorTicks node = result)
    (h : ∀ n ∈ nodes, ∀ cursor, readNode context cursor n = (cursor, [])) :
    readNodes context cursorTicks (node :: nodes) = result := by
  have hsilent : ∀ cursor, readNodes context cursor nodes = (cursor, []) := by
    induction nodes with
    | nil => exact fun _ => rfl
    | cons n nodes ih =>
      intro cursor
      rw [readNodes, h n (by simp), ih fun m hm => h m (List.mem_cons_of_mem _ hm)]
      rfl
  rw [readNodes, hnode, hsilent, List.append_nil]

theorem readNodes_createVoiceEventElements (h : Legible divisions event) (context : MeasureContext)
    (cursorTicks : Int) :
    readNodes context cursorTicks
        ((createVoiceEventElements document event voice divisions).map breakLines) =
      (cursorTicks + event.durationTicks divisions,
        [frameFor document voice context divisions (event, cursorTicks)]) := by
  have hframe : ∀ kind, event.kind = kind →
      frameFor document voice context divisions (event, cursorTicks) =
      { kind
        voiceId := toVoiceId context.partId (legibleNumber (getVoiceNumber document voice))
        staffId := toStaffId context.partId
          (legibleNumber (getStaffNumber document event.staffId))
        position :=
          ⟨context.measureId, durationTicksToQuarterRational cursorTicks context.divisions⟩
        rhythm :=
          ⟨durationTicksToQuarterRational (event.durationTicks divisions) context.divisions,
            event.rhythm.rhythmNotation, none⟩ } := by
    intro kind hkind
    rw [frameFor, frameAt, hkind]
  rcases event with event | event
  · obtain ⟨note, notes, hnotes⟩ := List.exists_cons_of_ne_nil (h.notes event rfl)
    have hnote := fun note stemDirection isChordMember => readNode_noteFields
      (noteFields_createPitchedNoteElement note stemDirection event.rhythm
        (getVoiceNumber document voice) (getStaffNumber document event.staffId) divisions
        isChordMember) h.duration context
    rw [hframe .pitched rfl, createVoiceEventElements, hnotes, List.mapIdx_cons, List.map_cons]
    refine readNodes_root ((hnote note _ _ cursorTicks).trans (if_neg (by decide))) ?_
    refine List.forall_mem_map.mpr fun node hn cursor => ?_
    obtain ⟨index, hindex, rfl⟩ := List.mem_mapIdx.mp hn
    exact (hnote _ _ _ cursor).trans (if_pos (by simp))
  · rw [hframe .explicitRest rfl, createVoiceEventElements]
    exact readNodes_root (readNode_noteFields (noteFields_createRestElement event
      (getVoiceNumber document voice) (getStaffNumber document event.staffId) divisions)
      h.duration context cursorTicks) (by simp)

/-- Events in the order of their starts, of which one with a duration starts
when those before it have ended. -/
def InOrder (divisions : Int) (events : List VoiceEvent) : Prop :=
  events.Pairwise fun a b => a.startTicks divisions ≤ b.startTicks divisions ∧
    (a.startTicks divisions + a.durationTicks divisions ≤ b.startTicks divisions ∨
      b.durationTicks divisions = 0)

theorem readNodes_createVoiceElements {document : ScoreDocument} {divisions : Int} {voice : Voice}
    {context : MeasureContext} {events : List VoiceEvent}
    (hlegible : ∀ event ∈ events, Legible divisions event)
    (horder : InOrder divisions events) {cursor : Int}
    (hcursor : ∀ event ∈ events,
      cursor ≤ event.startTicks divisions ∨ event.durationTicks divisions = 0) :
    readNodes context cursor
        ((createVoiceElements document voice divisions cursor events).1.map breakLines) =
      ((createVoiceElements document voice divisions cursor events).2,
        (readTicks divisions cursor events).map (frameFor document voice context divisions)) := by
  induction events generalizing cursor with
  | nil => rfl
  | cons event events ih =>
    obtain ⟨hevent, horder⟩ := List.pairwise_cons.mp horder
    obtain ⟨hfirst, hcursor⟩ := List.forall_mem_cons.mp hcursor
    obtain ⟨hread, hlegible⟩ := List.forall_mem_cons.mp hlegible
    have hduration := hread.duration
    -- both cursors move to the end of the event
    have hend : max (max cursor (event.startTicks divisions))
        (event.startTicks divisions + event.durationTicks divisions) =
        max cursor (event.startTicks divisions) + event.durationTicks divisions := by
      omega
    have hforward : readNodes context cursor ((if cursor < event.startTicks divisions then
          [createForwardElement (event.startTicks divisions - cursor)
            (getVoiceNumber document voice) (getStaffNumber document event.staffId)]
        else []).map breakLines) = (max cursor (event.startTicks divisions), []) := by
      split_ifs with hlt
      · rw [List.map_singleton, readNodes_root (readNode_createForwardElement context cursor
          (by omega) _ _) (by simp)]
        congr 1
        omega
      · rw [List.map_nil, readNodes]
        congr 1
        omega
    have hrest := @ih hlegible horder
      (max cursor (event.startTicks divisions) + event.durationTicks divisions) fun later hl => by
      have hlater := hcursor later hl
      have hpair := hevent later hl
      omega
    have hunfold : createVoiceElements document voice divisions cursor (event :: events) =
        ((if cursor < event.startTicks divisions then
            [createForwardElement (event.startTicks divisions - cursor)
              (getVoiceNumber document voice) (getStaffNumber document event.staffId)]
          else []) ++ createVoiceEventElements document event voice divisions ++
          (createVoiceElements document voice divisions
            (max cursor (event.startTicks divisions) + event.durationTicks divisions) events).1,
        (createVoiceElements document voice divisions
          (max cursor (event.startTicks divisions) + event.durationTicks divisions) events).2) := by
      rw [← hend]
      rfl
    rw [hunfold, List.map_append, List.map_append, readNodes_append, readNodes_append, hforward,
      readNodes_createVoiceEventElements hread, hrest]
    rfl

theorem createVoiceElements_cursor (document : ScoreDocument) (voice : Voice) (divisions : Int)
    (h : 0 ≤ cursor) (events : List VoiceEvent) :
    0 ≤ (createVoiceElements document voice divisions cursor events).2 := by
  induction events generalizing cursor with
  | nil => exact h
  | cons event events ih =>
    simp only [createVoiceElements]
    exact ih (by omega)

/-! ## Measures -/

/-- What a reader finds of the voices of a measure. -/
def readVoices (document : ScoreDocument) (measure : Measure) (divisions : Int)
    (voices : List Voice) : List (VoiceEvent × Int) :=
  voices.flatMap fun voice => readTicks divisions 0 (getVoiceEvents document measure divisions voice)

/-- The frames that the importer reads of the voices of a measure. -/
def readFrames (document : ScoreDocument) (measure : Measure) (context : MeasureContext)
    (divisions : Int) (voices : List Voice) : List EventFrame :=
  voices.flatMap fun voice =>
    (readTicks divisions 0 (getVoiceEvents document measure divisions voice)).map
      (frameFor document voice context divisions)

theorem readFrames_eq {voices : List Voice}
    (hwritable : ∀ voice ∈ voices, ∀ event ∈ getVoiceEvents document measure divisions voice,
      Writable document context.partId divisions voice event) :
    readFrames document measure context divisions voices =
      (readVoices document measure divisions voices).map (frameAt context divisions) := by
  rw [readFrames, readVoices, List.map_flatMap]
  refine List.flatMap_congr fun voice hv => List.map_congr_left fun found hf => ?_
  have hmem : found.1 ∈ getVoiceEvents document measure divisions voice := by
    rw [← map_fst_readTicks divisions 0 (getVoiceEvents document measure divisions voice)]
    exact List.mem_map_of_mem hf
  exact (hwritable voice hv found.1 hmem).frameFor_eq found.2

theorem readNodes_createVoicesElements {document : ScoreDocument} {measure : Measure}
    {divisions : Int} {context : MeasureContext} {voices : List Voice}
    (hlegible : ∀ voice ∈ voices, ∀ event ∈ getVoiceEvents document measure divisions voice,
      Legible divisions event)
    (horder : ∀ voice ∈ voices,
      InOrder divisions (getVoiceEvents document measure divisions voice))
    (hstart : ∀ voice ∈ voices, ∀ event ∈ getVoiceEvents document measure divisions voice,
      0 ≤ event.startTicks divisions)
    {voiceIndex : Nat} {cursor : Int} (hcursor : 0 ≤ cursor)
    (hfirst : voiceIndex = 0 → cursor = 0) :
    (readNodes context cursor ((createVoicesElements document measure divisions voiceIndex cursor
        voices).map breakLines)).2 = readFrames document measure context divisions voices := by
  induction voices generalizing voiceIndex cursor with
  | nil => rfl
  | cons voice voices ih =>
    obtain ⟨hread, hlegible⟩ := List.forall_mem_cons.mp hlegible
    obtain ⟨hinOrder, horder⟩ := List.forall_mem_cons.mp horder
    obtain ⟨hstarts, hstart⟩ := List.forall_mem_cons.mp hstart
    have hbackup : readNodes context cursor ((if 0 < voiceIndex ∧ 0 < cursor then
        [createBackupElement cursor] else []).map breakLines) = (0, []) := by
      split_ifs with hback
      · rw [List.map_singleton, readNodes_root (readNode_createBackupElement context cursor
          hback.2) (by simp)]
        congr 1
        omega
      · rw [List.map_nil, readNodes]
        congr 1
        rcases Nat.eq_zero_or_pos voiceIndex with h | h
        · exact hfirst h
        · exact Int.le_antisymm (Int.not_lt.mp fun hpos => hback ⟨h, hpos⟩) hcursor
    have hvoice := @readNodes_createVoiceElements document divisions voice context _ hread hinOrder 0
      fun event he => .inl (hstarts event he)
    have hrest := @ih hlegible horder hstart (voiceIndex + 1)
      (createVoiceElements document voice divisions 0
        (getVoiceEvents document measure divisions voice)).2
      (createVoiceElements_cursor document voice divisions (Int.le_refl 0) _)
      fun h => absurd h (Nat.succ_ne_zero voiceIndex)
    simp only [createVoicesElements, List.map_append, readNodes_append, hbackup, hvoice, hrest,
      List.nil_append]
    rw [readFrames, readFrames, List.flatMap_cons]

/-- What the importer keeps while it reads an exported measure: the divisions
are those of its own attributes, which the first measure has. -/
def exportedContext (part : Part) (divisions : Int) (measure : Measure × Nat) : MeasureContext where
  partId := part.id
  measureIndex := measure.2
  measureId := toMeasureId part.id measure.1.number
  divisions := if measure.2 = 0 then divisions else 1

theorem filter_hasTag_marked {items items' : List Node} (h : List.Forall₂ SameButMarks items items')
    (tag : String) (ht : tag ≠ "note") :
    items'.filter (hasTag tag) = items.filter (hasTag tag) := by
  induction h with
  | nil => rfl
  | @cons item item' items items' hitem _ ih =>
    rw [List.filter_cons, List.filter_cons, ih, hitem.hasTag]
    split_ifs with htag
    · have hother : item.hasTag "note" = false := Bool.eq_false_iff.mpr fun hnote =>
        ht ((hasTag_iff.mp htag).2.symm.trans (hasTag_iff.mp hnote).2)
      rw [hitem.other hother]
    · rfl

/-- The attributes of an exported measure. -/
theorem attributes_createMeasureElement (document : ScoreDocument) (part : Part) (divisions : Int)
    (timeSignature : TimeSignature) (measureIndex : Nat) (measure : Measure) :
    (createMeasureElement document part divisions timeSignature measureIndex
      measure).childNodes.filter (hasTag "attributes") =
      if measureIndex = 0 then [createAttributesElement document part divisions timeSignature]
      else [] := by
  have hvoices : (createVoicesElements document measure divisions 0 0
      (getPartVoices document part)).filter (hasTag "attributes") = [] := by
    rw [List.filter_eq_nil_iff]
    intro item hi htag
    have hitem := (isVoiceItem_createVoicesElements document measure divisions 0 0 _ item hi).tagName
    rw [(hasTag_iff.mp htag).2] at hitem
    exact absurd hitem (by decide)
  rw [createMeasureElement, childNodes_element, List.filter_append, hvoices, List.append_nil]
  split_ifs
  · rfl
  · rfl

theorem getMeasureContext_export {part : Part} (hdivisions : 0 < divisions)
    (h : SameShape SameButMarks
      (createMeasureElement document part divisions timeSignature measureIndex measure) measure') :
    getMeasureNumber measure'.breakLines measureIndex = measure.number ∧
      getMeasureContext part.id (measure'.breakLines, measureIndex) =
        exportedContext part divisions (measure, measureIndex) := by
  have hnumber : getMeasureNumber measure'.breakLines measureIndex = measure.number := by
    have hattribute : measure'.breakLines.getAttribute "number" =
        some (numberToString measure.number) := by
      rw [getAttribute_breakLines, getAttribute_congr h.attributes]
      rfl
    rw [getMeasureNumber, hattribute, Option.filter_some,
      if_pos (by simp [numberToString_ne_empty]), Option.map_some, parseInt_numberToString]
  have hattributes := filter_hasTag_marked h.childNodes "attributes" (by decide)
  rw [attributes_createMeasureElement] at hattributes
  have hread : getMeasureDivisions measure'.breakLines = if measureIndex = 0 then divisions else 1 := by
    rw [getMeasureDivisions, pathText, path_cons, childrenNamed_breakLines, Node.childrenNamed,
      hattributes]
    split_ifs
    · have hpath : (createAttributesElement document part divisions
          timeSignature).breakLines.pathText ["divisions"] = some (numberToString divisions) := by
        refine pathText_leaf ?_
        simp only [createAttributesElement, createElement, childrenNamed_element]
        split_ifs <;> rfl
      rw [List.map_singleton, List.flatMap_singleton]
      rw [pathText] at hpath
      rw [hpath, getPositiveInt_numberToString, if_pos hdivisions]
    · rfl
  refine ⟨hnumber, ?_⟩
  rw [getMeasureContext, hnumber, hread]
  rfl

theorem readNode_other {node : Node}
    (h : ∀ tag ∈ ["forward", "backup", "note"], node.hasTag tag = false) {cursorTicks : Int} :
    readNode context cursorTicks node = (cursorTicks, []) := by
  rw [readNode, h _ (by decide), h _ (by decide), h _ (by decide), if_neg (by decide),
    if_neg (by decide), if_neg (by decide)]

/-- The cursor over the elements of an exported measure. -/
theorem readNodes_export {part : Part}
    (h : SameShape SameButMarks
      (createMeasureElement document part divisions timeSignature measureIndex measure) measure')
    (hlegible : ∀ voice ∈ getPartVoices document part,
      ∀ event ∈ getVoiceEvents document measure divisions voice, Legible divisions event)
    (horder : ∀ voice ∈ getPartVoices document part,
      InOrder divisions (getVoiceEvents document measure divisions voice))
    (hstart : ∀ voice ∈ getPartVoices document part,
      ∀ event ∈ getVoiceEvents document measure divisions voice, 0 ≤ event.startTicks divisions)
    (context : MeasureContext) :
    (readNodes context 0 measure'.breakLines.childNodes).2 =
      readFrames document measure context divisions (getPartVoices document part) := by
  have hattributes : readNodes context 0
      ((if measureIndex = 0 then [createAttributesElement document part divisions timeSignature]
        else []).map breakLines) = (0, []) := by
    split_ifs
    · refine readNodes_root (readNode_other fun tag ht => ?_) (by simp)
      rw [hasTag_breakLines, createAttributesElement, hasTag_element]
      revert tag
      decide
    · rfl
  rw [readNodes_breakLines, readNodes_marked h.childNodes, createMeasureElement,
    childNodes_element, List.map_append, readNodes_append, hattributes]
  exact readNodes_createVoicesElements hlegible horder hstart (Int.le_refl 0) fun _ => rfl

/-- The events that the importer reads in an exported measure. -/
theorem readMeasure_export {part : Part} (hdivisions : 0 < divisions)
    (h : SameShape SameButMarks
      (createMeasureElement document part divisions timeSignature measureIndex measure) measure')
    (hwritable : ∀ voice ∈ getPartVoices document part,
      ∀ event ∈ getVoiceEvents document measure divisions voice,
        Writable document part.id divisions voice event)
    (horder : ∀ voice ∈ getPartVoices document part,
      InOrder divisions (getVoiceEvents document measure divisions voice))
    (hstart : ∀ voice ∈ getPartVoices document part,
      ∀ event ∈ getVoiceEvents document measure divisions voice, 0 ≤ event.startTicks divisions) :
    readMeasure part.id (measure'.breakLines, measureIndex) =
      (readVoices document measure divisions (getPartVoices document part)).map
        (frameAt (exportedContext part divisions (measure, measureIndex)) divisions) := by
  rw [readMeasure, (getMeasureContext_export hdivisions h).2, readNodes_export h
    (fun voice hv event he => (hwritable voice hv event he).legible) horder hstart]
  exact readFrames_eq hwritable

end NoteVerse.Editor
