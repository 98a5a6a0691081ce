import NoteVerse.Editor.InsertPlacement
import NoteVerse.Editor.Ties

/-!
# What add mode inserts

The place of an insertion is a point of the grid in the measure (`resolve_place`), and the
event starts there (`applyAddModeDomainInsert_events`). Whether the event has room before the
next one, or whether another event is there already, nothing asks: a gap is looked up by the
position alone, and where there is none the caret is the anchor.
-/

namespace NoteVerse.Editor

open Js

namespace InsertPlacement

/-! ## The place -/

variable {points : List RhythmicLayoutPoint} {measureDuration : Rational} {params : Params}

theorem getInsertableLayoutPoints_mem {candidates : List RhythmicLayoutPoint}
    {measureId : MeasureId} (hm : measureDuration.Valid)
    (hpoints : ∀ point ∈ points, point.gridPosition.In measureId measureDuration)
    {inputDuration : InputDuration}
    (h : getInsertableLayoutPoints points measureDuration (some inputDuration) = .ok candidates) :
    ∀ point ∈ candidates, point.gridPosition.In measureId measureDuration ∧
      point.gridPosition.position.offset.toRat +
        inputDuration.rhythm.timelineDuration.toRat ≤ measureDuration.toRat := by
  have hkeep : ∀ point ∈ points, (do
      let stop ← addRational point.gridPosition.position.offset
        inputDuration.rhythm.timelineDuration
      return (← compareRational stop measureDuration) ≤ 0 : Throws Bool) =
      .ok (point.gridPosition.position.offset.toRat +
        inputDuration.rhythm.timelineDuration.toRat ≤ measureDuration.toRat) := by
    intro point hpoint
    have hoffset := (hpoints point hpoint).valid
    obtain ⟨stop, hstop, hvalid⟩ := addRational_ok hoffset inputDuration.positive.1
    rw [hstop]
    refine bind_eq_ok.mpr ⟨stop, rfl, bind_eq_ok.mpr ⟨_, compareRational_ok hvalid hm, ?_⟩⟩
    rw [← toRat_addRational hoffset inputDuration.positive.1 hstop, pure_eq_ok]
    exact decide_eq_decide.mpr (compareRational_nonpos_iff hvalid hm)
  unfold getInsertableLayoutPoints at h
  dsimp only at h
  rw [filterM_eq hkeep] at h
  obtain rfl := Except.ok.inj h
  intro point hpoint
  obtain ⟨hmem, hle⟩ := List.mem_filter.mp hpoint
  exact ⟨hpoints point hmem, of_decide_eq_true hle⟩

theorem measureDuration_positive {context : TimelineContext}
    (hmeasure : getMeasureDuration params.timeSignature = .ok measureDuration)
    (h : candidatePoints params context = .ok points) : measureDuration.Positive := by
  obtain ⟨_, hduration, h⟩ := bind_eq_ok.mp h
  obtain rfl := Except.ok.inj (hmeasure.symm.trans hduration)
  obtain ⟨_, -, h⟩ := bind_eq_ok.mp h
  obtain ⟨_, hmap, -⟩ := bind_eq_ok.mp h
  obtain ⟨⟨⟩, hassert, -⟩ := bind_eq_ok.mp hmap
  exact assertPositiveRational_eq_ok.mp hassert

/-- The candidates are points of the grid from which the event ends in the measure. -/
theorem candidatePoints_mem {context : TimelineContext} {inputDuration : InputDuration}
    (hinput : params.inputDuration = some inputDuration)
    (hmeasure : getMeasureDuration params.timeSignature = .ok measureDuration)
    (h : candidatePoints params context = .ok points) :
    ∀ point ∈ points, point.gridPosition.In context.measureId measureDuration ∧
      point.gridPosition.position.offset.toRat +
        inputDuration.rhythm.timelineDuration.toRat ≤ measureDuration.toRat := by
  have hpositive := measureDuration_positive hmeasure h
  obtain ⟨_, hduration, h⟩ := bind_eq_ok.mp h
  obtain rfl := Except.ok.inj (hmeasure.symm.trans hduration)
  obtain ⟨grid, -, h⟩ := bind_eq_ok.mp h
  obtain ⟨layoutMap, hmap, h⟩ := bind_eq_ok.mp h
  rw [hinput] at h
  exact getInsertableLayoutPoints_mem hpositive.1 (createRhythmicLayoutMap_points hmap) h

/-- The target of the anchor is the candidate nearest to the pointer. -/
theorem resolve_place {placement : RhythmicInsertPlacement}
    (h : resolveRhythmicInsertPlacement params = .ok (some placement)) :
    ∃ context points point, resolveTarget params = some context ∧
      candidatePoints params context = .ok points ∧
      Lists.LastNearest (distanceToPointer params.xLeft params.xRight params.clientX) points
        point ∧
      getInsertionAnchorTarget placement.insertionAnchor =
        ⟨context.staffId, context.voiceId,
          ⟨context.measureId, point.gridPosition.position.offset⟩⟩ := by
  unfold resolveRhythmicInsertPlacement at h
  cases htarget : resolveTarget params with
  | none =>
    rw [htarget] at h
    exact absurd (Except.ok.inj h) (by simp)
  | some context =>
    rw [htarget] at h
    obtain ⟨points, hpoints, h⟩ := bind_eq_ok.mp h
    cases points with
    | nil => exact absurd (Except.ok.inj h) (by simp)
    | cons first rest =>
      obtain ⟨caret, hcaret, h⟩ := bind_eq_ok.mp h
      obtain ⟨⟨⟩, -, hcaret⟩ := bind_eq_ok.mp hcaret
      obtain rfl := pure_eq_ok.mp hcaret
      obtain ⟨gap, -, h⟩ := bind_eq_ok.mp h
      obtain ⟨anchor, hanchor, h⟩ := bind_eq_ok.mp h
      obtain rfl := Option.some.inj (pure_eq_ok.mp h)
      refine ⟨context, first :: rest, _, rfl, hpoints,
        Lists.lastNearest_nearestLoop _ first rest, ?_⟩
      cases gap with
      | none =>
        obtain rfl := pure_eq_ok.mp hanchor
        rfl
      | some gap =>
        obtain ⟨⟨⟩, -, hanchor⟩ := bind_eq_ok.mp hanchor
        obtain rfl := pure_eq_ok.mp hanchor
        rfl

end InsertPlacement

/-! ## The document -/

def AddModeInsertTarget.context (target : AddModeInsertTarget) : TimelineContext :=
  ⟨target.position.measureId, target.staffId, target.voiceId⟩

theorem ensureAddModeTarget_events (document : ScoreDocument) (target : AddModeInsertTarget) :
    (ensureAddModeTarget document target).events = document.events := by
  unfold ensureAddModeTarget
  split
  · rfl
  · rfl

/-- The event is what the command inserts at the target. -/
structure VoiceEvent.InsertedAt (event : VoiceEvent) (target : AddModeInsertTarget)
    (command : AddModeInsertCommand) : Prop where
  staff : event.staffId = target.staffId
  voice : event.voiceId = target.voiceId
  position : event.position = target.position
  rhythm : event.rhythm = command.inputDuration.rhythm

/-- The insertion adds one event, at the target of the anchor. -/
theorem applyAddModeDomainInsert_events [Collation] {document document' : ScoreDocument}
    {insertionAnchor : InsertionAnchor} {command : AddModeInsertCommand}
    {gaps : Option (List TimelineGap)}
    (h : applyAddModeDomainInsert document insertionAnchor command = .success document' gaps) :
    ∃ event : VoiceEvent, event.InsertedAt (getInsertionAnchorTarget insertionAnchor) command ∧
      document'.events.Perm (event :: document.events) := by
  unfold applyAddModeDomainInsert at h
  dsimp only at h
  split at h
  · rename_i staff voice hstaff hvoice
    have hs : staff.id = (getInsertionAnchorTarget insertionAnchor).staffId := by
      simpa using List.find?_some hstaff
    have hv : voice.id = (getInsertionAnchorTarget insertionAnchor).voiceId := by
      simpa using List.find?_some hvoice
    have hperm : ∀ event : VoiceEvent, (withSortedEvents
        { ensureAddModeTarget document (getInsertionAnchorTarget insertionAnchor) with
          events := (ensureAddModeTarget document
            (getInsertionAnchorTarget insertionAnchor)).events ++ [event] }).events.Perm
          (event :: document.events) := by
      intro event
      refine (sort_perm _ _).trans ?_
      dsimp only
      rw [ensureAddModeTarget_events]
      exact List.perm_append_singleton _ _
    cases command with
    | insertExplicitRest inputDuration =>
      unfold applyAddModeInsertCommandToDomain insertExplicitRest at h
      dsimp only at h
      split_ifs at h
      obtain ⟨rfl, -⟩ := CommandResult.success.inj h
      refine ⟨_, ?_, hperm _⟩
      exact ⟨hs, hv, rfl, rfl⟩
    | insertPitchedEvent inputDuration pitch =>
      unfold applyAddModeInsertCommandToDomain insertPitchedEvent at h
      dsimp only at h
      split_ifs at h
      rw [createPitchedEvent, if_neg (List.cons_ne_nil _ _)] at h
      obtain ⟨rfl, -⟩ := CommandResult.success.inj h
      refine ⟨_, ?_, hperm _⟩
      exact ⟨hs, hv, rfl, rfl⟩
  · exact absurd h (by simp)

/-! ## Room -/

/-- Events of one measure, staff and voice that do not overlap, all inside the measure. -/
structure NonOverlapping (events : List VoiceEvent) (measureDuration : ℚ) : Prop where
  valid : ∀ event ∈ events, event.Valid
  within : ∀ event ∈ events, Sweep.Within 0 measureDuration event.interval
  apart : events.Pairwise fun left right => ¬Sweep.Overlap left.interval right.interval

/-- The event is new, lies in the measure in one of the gaps of its voice, overlaps no event
of the voice, and takes its time out of the gaps. -/
structure InsertedInGap (document document' : ScoreDocument) (target : AddModeInsertTarget)
    (command : AddModeInsertCommand) (measureDuration : Rational) (event : VoiceEvent) :
    Prop where
  inserted : event.InsertedAt target command
  events : document'.events.Perm (event :: document.events)
  within : Sweep.Within 0 measureDuration.toRat event.interval
  free : ∀ other ∈ matchingEvents document.events target.context,
    ¬Sweep.Overlap event.interval other.interval
  gaps : ∃ before after,
    deriveTimelineGaps document.events target.context measureDuration = .ok before ∧
    deriveTimelineGaps document'.events target.context measureDuration = .ok after ∧
    (∃ gap ∈ before, gap.interval.1 ≤ event.interval.1 ∧ event.interval.2 ≤ gap.interval.2) ∧
    after.map TimelineGap.interval =
      (before.map TimelineGap.interval).flatMap (Sweep.cut event.interval)

/-- From the candidate nearest to the pointer on, the time that the event takes is free. -/
def HasRoom (params : InsertPlacement.Params) (document : ScoreDocument)
    (inputDuration : InputDuration) : Prop :=
  ∀ context points point, InsertPlacement.resolveTarget params = some context →
    InsertPlacement.candidatePoints params context = .ok points →
    Lists.LastNearest
      (InsertPlacement.distanceToPointer params.xLeft params.xRight params.clientX) points point →
    ∀ event ∈ matchingEvents document.events context,
      ¬Sweep.Overlap (point.gridPosition.position.offset.toRat,
        point.gridPosition.position.offset.toRat +
          inputDuration.rhythm.timelineDuration.toRat) event.interval

theorem pairwise_intervals_inOrder (events : List VoiceEvent) :
    ((inOrder events).map VoiceEvent.interval).Pairwise (·.1 ≤ ·.1) :=
  List.pairwise_map.mpr (List.pairwise_insertionSort _ _)

/-- An event that overlaps no other of its voice takes its time out of the gaps. -/
theorem deriveTimelineGaps_insert {events events' : List VoiceEvent} {event : VoiceEvent}
    {context : TimelineContext} {measureDuration : Rational} (hm : measureDuration.Valid)
    (hfree : NonOverlapping (matchingEvents events context) measureDuration.toRat)
    (hperm : (matchingEvents events' context).Perm (event :: matchingEvents events context))
    (hvalid : event.Valid) (hwithin : Sweep.Within 0 measureDuration.toRat event.interval)
    (hlt : event.interval.1 < event.interval.2)
    (hapart : ∀ other ∈ matchingEvents events context,
      ¬Sweep.Overlap event.interval other.interval) :
    ∃ before after, deriveTimelineGaps events context measureDuration = .ok before ∧
      deriveTimelineGaps events' context measureDuration = .ok after ∧
      (∃ gap ∈ before, gap.interval.1 ≤ event.interval.1 ∧
        event.interval.2 ≤ gap.interval.2) ∧
      after.map TimelineGap.interval =
        (before.map TimelineGap.interval).flatMap (Sweep.cut event.interval) := by
  obtain ⟨before, hbefore, hbeforeEq, -⟩ := deriveTimelineGaps_eq hm hfree.valid
  have hvalid' : ∀ other ∈ matchingEvents events' context, other.Valid := by
    simp only [hperm.mem_iff, List.forall_mem_cons]
    exact ⟨hvalid, hfree.valid⟩
  obtain ⟨after, hafter, hafterEq, -⟩ := deriveTimelineGaps_eq hm hvalid'
  have hsorted := pairwise_intervals_inOrder (matchingEvents events context)
  have hinOrder : ∀ other ∈ inOrder (matchingEvents events context),
      other ∈ matchingEvents events context :=
    fun other hother => (List.mem_insertionSort _).mp hother
  have hbounds : ∀ interval ∈ (inOrder (matchingEvents events context)).map VoiceEvent.interval,
      interval.1 ≤ interval.2 ∧ interval.2 ≤ measureDuration.toRat :=
    List.forall_mem_map.mpr fun other hother => (hfree.within other (hinOrder other hother)).2
  have hnone : ∀ interval ∈ (inOrder (matchingEvents events context)).map VoiceEvent.interval,
      ¬Sweep.Overlap event.interval interval :=
    List.forall_mem_map.mpr fun other hother => hapart other (hinOrder other hother)
  refine ⟨before, after, hbefore, hafter, ?_, ?_⟩
  · obtain ⟨interval, hinterval, hin⟩ := Sweep.exists_gap_of_not_overlap hsorted hbounds
      hwithin.1 hlt hwithin.2.2 hnone
    rw [← hbeforeEq] at hinterval
    obtain ⟨gap, hgap, rfl⟩ := List.mem_map.mp hinterval
    exact ⟨gap, hgap, hin⟩
  · have hsame : ((inOrder (matchingEvents events' context)).map VoiceEvent.interval).Perm
        (event.interval :: (inOrder (matchingEvents events context)).map VoiceEvent.interval) := by
      rw [← List.map_cons]
      exact (((List.perm_insertionSort _ _).trans hperm).trans
        ((List.perm_insertionSort _ _).symm.cons event)).map _
    rw [hafterEq, hbeforeEq]
    exact Sweep.gaps_insert hsorted (pairwise_intervals_inOrder _) hsame hbounds hwithin hlt hnone

theorem matchingEvents_insert {events events' : List VoiceEvent} {event : VoiceEvent}
    {context : TimelineContext} (hperm : events'.Perm (event :: events))
    (hmeasure : event.position.measureId = context.measureId)
    (hstaff : event.staffId = context.staffId) (hvoice : event.voiceId = context.voiceId) :
    (matchingEvents events' context).Perm (event :: matchingEvents events context) := by
  refine (hperm.filter _).trans ?_
  rw [List.filter_cons_of_pos (by simp [hmeasure, hstaff, hvoice])]
  exact List.Perm.refl _

/-! ## The insertion has room -/

/-- In a document without overlaps, add mode inserts the event into one gap of the voice
exactly if the time that it takes from the candidate nearest to the pointer on is free. The
place may come from another document than the one inserted into. -/
theorem addMode_inserts_in_gap_iff [Collation] (params : InsertPlacement.Params)
    (document : ScoreDocument) (command : AddModeInsertCommand)
    (hinput : params.inputDuration = some command.inputDuration) {measureDuration : Rational}
    (hmeasure : InsertPlacement.getMeasureDuration params.timeSignature = .ok measureDuration)
    (hfree : ∀ context,
      NonOverlapping (matchingEvents document.events context) measureDuration.toRat)
    {placement : InsertPlacement.RhythmicInsertPlacement}
    (hplacement : InsertPlacement.resolveRhythmicInsertPlacement params = .ok (some placement))
    {document' : ScoreDocument} {gaps : Option (List TimelineGap)}
    (hinsert : applyAddModeDomainInsert document placement.insertionAnchor command =
      .success document' gaps) :
    (∃ event, InsertedInGap document document'
        (getInsertionAnchorTarget placement.insertionAnchor) command measureDuration event) ↔
      HasRoom params document command.inputDuration := by
  obtain ⟨context, points, point, htarget, hpoints, hnearest, hanchor⟩ :=
    InsertPlacement.resolve_place hplacement
  obtain ⟨hin, hend⟩ := InsertPlacement.candidatePoints_mem hinput hmeasure hpoints point
    hnearest.mem
  have hcontext : (getInsertionAnchorTarget placement.insertionAnchor).context = context := by
    rw [hanchor]
    rfl
  -- The event takes the time from the point on, whatever it meets there.
  have hinterval : ∀ event : VoiceEvent, event.InsertedAt
      (getInsertionAnchorTarget placement.insertionAnchor) command →
      event.interval = (point.gridPosition.position.offset.toRat,
        point.gridPosition.position.offset.toRat +
          command.inputDuration.rhythm.timelineDuration.toRat) := by
    intro event hevent
    rw [VoiceEvent.interval, hevent.position, hevent.rhythm, hanchor]
  constructor
  · rintro ⟨event, hevent⟩ context' points' point' htarget' hpoints' hnearest' other hother
    obtain rfl := Option.some.inj (htarget.symm.trans htarget')
    obtain rfl := Except.ok.inj (hpoints.symm.trans hpoints')
    obtain rfl := hnearest.eq hnearest'
    rw [← hinterval event hevent.inserted]
    exact hevent.free other (hcontext ▸ hother)
  · intro hroom
    obtain ⟨event, hevent, hperm⟩ := applyAddModeDomainInsert_events hinsert
    have heq := hinterval event hevent
    have hpositive := command.inputDuration.positive.toRat_pos
    have hlt : event.interval.1 < event.interval.2 := by
      rw [heq]
      exact lt_add_of_pos_right _ hpositive
    have hwithin : Sweep.Within 0 measureDuration.toRat event.interval := by
      refine ⟨?_, hlt.le, ?_⟩
      · rw [heq]
        exact hin.nonneg
      · rw [heq]
        exact hend
    have hvalid : event.Valid := by
      rw [VoiceEvent.Valid, hevent.position, hevent.rhythm, hanchor]
      exact ⟨hin.valid, command.inputDuration.positive.1⟩
    have hapart : ∀ other ∈ matchingEvents document.events
        (getInsertionAnchorTarget placement.insertionAnchor).context,
        ¬Sweep.Overlap event.interval other.interval := by
      intro other hother
      rw [heq]
      exact hroom context points point htarget hpoints hnearest other (hcontext ▸ hother)
    have hsame : (matchingEvents document'.events
        (getInsertionAnchorTarget placement.insertionAnchor).context).Perm
        (event :: matchingEvents document.events
          (getInsertionAnchorTarget placement.insertionAnchor).context) :=
      matchingEvents_insert hperm (by rw [hevent.position]; rfl) hevent.staff hevent.voice
    have hm := InsertPlacement.measureDuration_positive hmeasure hpoints
    exact ⟨event, hevent, hperm, hwithin, hapart,
      deriveTimelineGaps_insert hm.1 (hfree _) hsame hvalid hwithin hlt hapart⟩

/-- A measure of four quarters with a quarter rest on the third of them, in the only voice. -/
def restOnThird : ScoreDocument where
  id := "score"
  parts := [⟨"P1", "Piano"⟩]
  staves := [⟨"P1:staff-1", "P1", 0⟩]
  voices := [⟨"P1:voice-1", "P1", "P1:staff-1", .automatic⟩]
  measures := [⟨"P1:measure-1", 1⟩]
  events := [.explicitRest ⟨"rest-1", "P1:voice-1", "P1:staff-1",
    ⟨"P1:measure-1", ⟨2, 1⟩⟩, ⟨⟨1, 1⟩, ⟨.quarter, 0⟩, none⟩, none⟩]
  beamRelationships := []
  tieRelationships := []
  slurRelationships := []
  notationControls := []

def halfRest : AddModeInsertCommand := .insertExplicitRest ⟨⟨⟨2, 1⟩, ⟨.half, 0⟩, none⟩, by decide⟩

/-- The pointer at `clientX` in the measure, drawn from 0 to 400. -/
def pointerAt (clientX : ℚ) : InsertPlacement.Params where
  domainDocument := some restOnThird
  timelineGaps := [⟨"P1:voice-1", "P1:staff-1", ⟨"P1:measure-1", ⟨0, 1⟩⟩, ⟨2, 1⟩⟩,
    ⟨"P1:voice-1", "P1:staff-1", ⟨"P1:measure-1", ⟨3, 1⟩⟩, ⟨1, 1⟩⟩]
  xLeft := 0
  xRight := 400
  renderedRhythmicAnchors := fun _ => []
  measureIndex := 0
  target := ⟨0, 1⟩
  clientX
  divisions := 4
  inputDuration := some halfRest.inputDuration
  timeSignature := some "4/4"
  grid := none

/-- The place at a quarter of the first gap. -/
def placeInFirstGap (quarter : Nat) : InsertPlacement.RhythmicInsertPlacement where
  location := ⟨0, 0, 1, quarter * 4⟩
  left := quarter * 100
  gridLines := [0, 100, 200]
  caret := ⟨"P1:voice-1", "P1:staff-1", ⟨"P1:measure-1", ⟨quarter, 1⟩⟩⟩
  insertionAnchor := .timelineGap "P1:voice-1" "P1:staff-1" ⟨"P1:measure-1", ⟨quarter, 1⟩⟩
    ⟨"P1:measure-1", ⟨0, 1⟩⟩ ⟨2, 1⟩
  position := ⟨"P1:measure-1", ⟨quarter, 1⟩⟩

/-- The document with a half rest at a quarter of the measure. -/
def withHalfRest (id : EventId) (quarter : Nat) (events : List VoiceEvent → List VoiceEvent) :
    ScoreDocument :=
  { restOnThird with events := events [.explicitRest ⟨id, "P1:voice-1", "P1:staff-1",
      ⟨"P1:measure-1", ⟨quarter, 1⟩⟩, ⟨⟨2, 1⟩, ⟨.half, 0⟩, none⟩, none⟩] }

theorem restOnThird_nonOverlapping (context : TimelineContext) :
    NonOverlapping (matchingEvents restOnThird.events context) (Rational.toRat ⟨4, 1⟩) := by
  have hsub := List.filter_sublist (l := restOnThird.events) (p := fun event =>
    event.position.measureId = context.measureId ∧ event.staffId = context.staffId ∧
      event.voiceId = context.voiceId)
  have hvalid : ∀ event ∈ restOnThird.events, event.Valid ∧
      Sweep.Within 0 (Rational.toRat ⟨4, 1⟩) event.interval := by
    intro event hevent
    rw [List.mem_singleton.mp hevent]
    exact ⟨⟨by decide, by decide⟩, by decide +kernel⟩
  exact ⟨fun event hevent => (hvalid event (hsub.subset hevent)).1,
    fun event hevent => (hvalid event (hsub.subset hevent)).2,
    List.Pairwise.sublist hsub (List.pairwise_singleton _ _)⟩

/-- At the second quarter of the gap of two quarters, a half rest goes into the event after
the gap. -/
theorem halfRest_passes_gap :
    InsertPlacement.resolveRhythmicInsertPlacement (pointerAt 130) =
        .ok (some (placeInFirstGap 1)) ∧
      InsertPlacement.getMeasureDuration (pointerAt 130).timeSignature = .ok ⟨4, 1⟩ ∧
      (∀ context, NonOverlapping (matchingEvents restOnThird.events context)
        (Rational.toRat ⟨4, 1⟩)) ∧
      ∃ document', @applyAddModeDomainInsert codePointCollation restOnThird
          (placeInFirstGap 1).insertionAnchor halfRest = .success document' none ∧
        ¬∃ event, InsertedInGap restOnThird document'
          (getInsertionAnchorTarget (placeInFirstGap 1).insertionAnchor) halfRest ⟨4, 1⟩ event := by
  refine ⟨by decide +kernel, by decide, restOnThird_nonOverlapping,
    withHalfRest "add-rest-P1-measure-1-P1-staff-1-P1-voice-1-o1" 1 (· ++ restOnThird.events),
    by decide, ?_⟩
  rintro ⟨event, hevent⟩
  refine hevent.free _ (List.mem_singleton_self _) ?_
  rw [VoiceEvent.interval, hevent.inserted.position, hevent.inserted.rhythm]
  decide +kernel

theorem hasRoom_firstGap : HasRoom (pointerAt 30) restOnThird halfRest.inputDuration := by
  intro context points point hcontext hpoints hnearest event hevent
  obtain rfl : (⟨"P1:measure-1", "P1:staff-1", "P1:voice-1"⟩ : TimelineContext) = context :=
    Option.some.inj (Eq.trans (by decide) hcontext)
  have hcandidates : ∃ first second third : RhythmicLayoutPoint,
      points = [first, second, third] ∧ first.gridPosition.position.offset = ⟨0, 1⟩ ∧
        first.x = 0 ∧ second.x = 100 ∧ third.x = 200 := by
    refine ⟨⟨⟨⟨"P1:measure-1", ⟨0, 1⟩⟩, 0⟩, 0⟩, ⟨⟨⟨"P1:measure-1", ⟨1, 1⟩⟩, 1⟩, 100⟩,
      ⟨⟨⟨"P1:measure-1", ⟨2, 1⟩⟩, 2⟩, 200⟩, ?_, rfl, rfl, rfl, rfl⟩
    exact Except.ok.inj (hpoints.symm.trans (by decide +kernel))
  obtain ⟨first, second, third, rfl, hoffset, hfirst, hsecond, hthird⟩ := hcandidates
  have hfirst' : Lists.LastNearest (InsertPlacement.distanceToPointer 0 400 30)
      [first, second, third] first := by
    refine ⟨[], [second, third], rfl, fun _ hmem => absurd hmem List.not_mem_nil, fun z hz => ?_⟩
    unfold InsertPlacement.distanceToPointer
    rcases List.mem_pair.mp hz with rfl | rfl
    · rw [hfirst, hsecond]
      decide +kernel
    · rw [hfirst, hthird]
      decide +kernel
  obtain rfl := hfirst'.eq hnearest
  obtain rfl := List.mem_singleton.mp (List.mem_filter.mp hevent).1
  rw [hoffset]
  decide +kernel

theorem addMode_inserts_in_gap_iff_firstGap :
    ∃ document' event, InsertedInGap restOnThird document'
      (getInsertionAnchorTarget (placeInFirstGap 0).insertionAnchor) halfRest ⟨4, 1⟩ event :=
  ⟨withHalfRest "add-rest-P1-measure-1-P1-staff-1-P1-voice-1-o0" 0 (· ++ restOnThird.events),
    (@addMode_inserts_in_gap_iff codePointCollation (pointerAt 30) restOnThird halfRest rfl
      ⟨4, 1⟩ (by decide) restOnThird_nonOverlapping (placeInFirstGap 0)
      (by decide +kernel) _ none (by decide)).mpr hasRoom_firstGap⟩

end NoteVerse.Editor
