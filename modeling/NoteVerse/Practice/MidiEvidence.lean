import NoteVerse.Lib.Lists
import NoteVerse.Lib.Transition
import NoteVerse.Practice.MidiEngine
import NoteVerse.Practice.ServerEvaluator
import NoteVerse.Practice.SessionRuntime

/-!
# MIDI evidence

`PerformanceEvidenceRecorder` of `performance/evidence.py`, as far as it records
MIDI, and the session that gives it what arrives while its clock runs.

A note is open from its note-on to what ends it. `settledNotes` are the notes that
are ended by a release or at the finish; these are recorded (`finish_perm`), by
induction on the events, with what becomes of the open notes (`settles`). The notes
that a note-on ends are not (`settledNotes_eq_iff`).
-/

namespace NoteVerse.Practice

open Js ServerSteps

/-- A `PerformanceObservation`, with its times, as its checks leave it. -/
structure RecordedObservation extends PerformanceObservation where
  sessionTimeMs : Int
  durationMs : Int
  sessionTimeMs_nonneg : 0 ≤ sessionTimeMs
  performanceTimeMs_nonneg : 0 ≤ performanceTimeMs
  durationMs_pos : 0 < durationMs
  deriving DecidableEq

namespace Evidence

/-- `midi_pitch_name` -/
def midiPitchName (noteNumber : Int) : Except String String :=
  if noteNumber < 0 ∨ 127 < noteNumber then
    .error "MIDI note number must be between 0 and 127."
  else .ok (ScoreTimeline.midiPitchName noteNumber)

/-- What is kept of a note that is open. -/
structure OpenNote where
  startedAtMs : Int
  startedPerformanceTimeMs : ℚ
  pitch : String
  deriving DecidableEq, Repr

/-- `PerformanceObservation(...)` of a note that ends. -/
def OpenNote.observation (note : OpenNote) (sessionTimeMs : Int) :
    Except String RecordedObservation :=
  if hsession : note.startedAtMs < 0 then
    .error "Performance observation session time must be non-negative."
  else if hperformance : note.startedPerformanceTimeMs < 0 then
    .error "Performance observation time must be non-negative."
  else
    .ok {
      source := .midi
      sessionTimeMs := note.startedAtMs
      performanceTimeMs := note.startedPerformanceTimeMs
      durationMs := max 1 (sessionTimeMs - note.startedAtMs)
      active := true
      analyzable := true
      confidence := 1
      observedPitches := [note.pitch]
      confidence_nonneg := fullConfidence_nonneg
      confidence_le_one := fullConfidence_le_one
      sessionTimeMs_nonneg := not_lt.mp hsession
      performanceTimeMs_nonneg := not_lt.mp hperformance
      durationMs_pos := lt_max_of_lt_left zero_lt_one }

end Evidence

open Evidence

/-- The recorder; what it needs for audio is left out. -/
structure PerformanceEvidenceRecorder where
  source : PerformanceObservationSource
  activeMidiNotes : JsMap Int OpenNote
  observations : List RecordedObservation

namespace PerformanceEvidenceRecorder

def initial (source : PerformanceObservationSource) : PerformanceEvidenceRecorder :=
  ⟨source, .empty, []⟩

variable (recorder : PerformanceEvidenceRecorder)

def recordMidiEvent (eventType : String) (noteNumber velocity sessionTimeMs : Int)
    (performanceTimeMs : ℚ) :
    PerformanceEvidenceRecorder × Except EngineError (Option RecordedObservation) :=
  if recorder.source ≠ .midi then
    (recorder, .error (.runtimeError
      "MIDI events require a MIDI Performance evidence recorder."))
  else if velocity < 0 ∨ 127 < velocity then
    (recorder, .error (.valueError "MIDI velocity must be between 0 and 127."))
  else if eventType = "note_on" ∧ 0 < velocity then
    match midiPitchName noteNumber with
    | .error message => (recorder, .error (.valueError message))
    | .ok pitch =>
      ({ recorder with
        activeMidiNotes :=
          recorder.activeMidiNotes.set noteNumber ⟨sessionTimeMs, performanceTimeMs, pitch⟩ },
        .ok none)
  else if eventType ≠ "note_off" ∧ eventType ≠ "note_on" then
    (recorder, .error (.valueError "Unsupported MIDI event type."))
  else
    match recorder.activeMidiNotes.get noteNumber with
    | none => (recorder, .ok none)
    | some started =>
      let recorder := { recorder with
        activeMidiNotes := recorder.activeMidiNotes.delete noteNumber }
      match started.observation sessionTimeMs with
      | .error message => (recorder, .error (.valueError message))
      | .ok observation =>
        ({ recorder with observations := recorder.observations ++ [observation] },
          .ok (some observation))

/-- The loop of `finish_open_midi_notes` over the notes that are left. -/
def finishNotes (sessionTimeMs : Int) (recorder : PerformanceEvidenceRecorder) :
    List (Int × OpenNote) →
      PerformanceEvidenceRecorder × Except EngineError (List RecordedObservation)
  | [] => ({ recorder with activeMidiNotes := .empty }, .ok [])
  | (_, started) :: rest =>
    match started.observation sessionTimeMs with
    | .error message => (recorder, .error (.valueError message))
    | .ok observation =>
      let (recorder, observations) :=
        finishNotes sessionTimeMs
          { recorder with observations := recorder.observations ++ [observation] } rest
      (recorder, observations.map (observation :: ·))

/-- `finish_open_midi_notes`: in the order of the note numbers. -/
def finishOpenMidiNotes (sessionTimeMs : Int) :
    PerformanceEvidenceRecorder × Except EngineError (List RecordedObservation) :=
  if recorder.source ≠ .midi then (recorder, .ok [])
  else
    finishNotes sessionTimeMs recorder
      (recorder.activeMidiNotes.entries.insertionSort (·.1 ≤ ·.1))

end PerformanceEvidenceRecorder

/-! ## The events -/

/-- The `event_type` of a message. -/
def ServerSteps.MidiEventType.literal : MidiEventType → String
  | .noteOn => "note_on"
  | .noteOff => "note_off"

/-- `ClientMidiEventPayload` of `realtime/protocol.py`, with the bounds of its fields. -/
structure ClientMidiEventPayload where
  eventType : MidiEventType
  noteNumber : Int
  velocity : Int
  timestampMs : Int
  noteNumber_nonneg : 0 ≤ noteNumber
  noteNumber_le : noteNumber ≤ 127
  velocity_nonneg : 0 ≤ velocity
  velocity_le : velocity ≤ 127
  timestampMs_nonneg : 0 ≤ timestampMs
  deriving DecidableEq, Repr

/-- A payload that arrives while the clock runs, with the time that the clock shows. -/
structure MidiEvent extends ClientMidiEventPayload where
  performanceTimeMs : ℚ
  performanceTimeMs_nonneg : 0 ≤ performanceTimeMs
  deriving Repr

instance : DecidableEq MidiEvent := fun a b =>
  decidable_of_iff (a.toClientMidiEventPayload = b.toClientMidiEventPayload ∧
    a.performanceTimeMs = b.performanceTimeMs) (by cases a; cases b; simp)

namespace MidiEvent

/-- A note-on of positive velocity. -/
def Strikes (event : MidiEvent) : Prop := event.eventType = .noteOn ∧ 0 < event.velocity

instance : DecidablePred Strikes := fun event =>
  inferInstanceAs (Decidable (event.eventType = .noteOn ∧ 0 < event.velocity))

/-- What is to be recorded of a note that is struck and ends. -/
def observation (event : MidiEvent) (endedAtMs : Int) : RecordedObservation where
  source := .midi
  sessionTimeMs := event.timestampMs
  performanceTimeMs := event.performanceTimeMs
  durationMs := max 1 (endedAtMs - event.timestampMs)
  active := true
  analyzable := true
  confidence := 1
  observedPitches := [ScoreTimeline.midiPitchName event.noteNumber]
  confidence_nonneg := fullConfidence_nonneg
  confidence_le_one := fullConfidence_le_one
  sessionTimeMs_nonneg := event.timestampMs_nonneg
  performanceTimeMs_nonneg := event.performanceTimeMs_nonneg
  durationMs_pos := lt_max_of_lt_left zero_lt_one

/-- The next event of a note, which ends it if it is open. -/
def next (noteNumber : Int) (rest : List MidiEvent) : Option MidiEvent :=
  rest.find? fun event => event.noteNumber = noteNumber

/-- When a note ends that is open before the rest of the events. -/
def endedAt (finishMs noteNumber : Int) (rest : List MidiEvent) : Int :=
  (next noteNumber rest).elim finishMs fun event => event.timestampMs

/-- One observation for each note that is struck, from its note-on to its release, its
next note-on or the finish. -/
def struckNotes (finishMs : Int) : List MidiEvent → List RecordedObservation
  | [] => []
  | event :: rest =>
    if event.Strikes then
      event.observation (endedAt finishMs event.noteNumber rest) :: struckNotes finishMs rest
    else struckNotes finishMs rest

/-- No note is struck while it is open. -/
def NoRestrike : List MidiEvent → Prop
  | [] => True
  | event :: rest =>
    (event.Strikes → ∀ other ∈ next event.noteNumber rest, ¬other.Strikes) ∧ NoRestrike rest

end MidiEvent

/-! ## One event -/

open MidiEvent

/-- What is kept of a note that is struck. -/
def MidiEvent.opened (event : MidiEvent) : OpenNote :=
  ⟨event.timestampMs, event.performanceTimeMs, ScoreTimeline.midiPitchName event.noteNumber⟩

theorem MidiEvent.opened_observation (event : MidiEvent) (endedAtMs : Int) :
    event.opened.observation endedAtMs = .ok (event.observation endedAtMs) := by
  have hsession : ¬event.opened.startedAtMs < 0 := not_lt.mpr event.timestampMs_nonneg
  have hperformance : ¬event.opened.startedPerformanceTimeMs < 0 :=
    not_lt.mpr event.performanceTimeMs_nonneg
  rw [OpenNote.observation, dif_neg hsession, dif_neg hperformance]
  rfl

theorem ServerSteps.MidiEventType.literal_eq {eventType : MidiEventType} :
    eventType.literal = "note_on" ↔ eventType = .noteOn := by
  cases eventType <;> decide

namespace PerformanceEvidenceRecorder

variable {recorder : PerformanceEvidenceRecorder} {event : MidiEvent} {rest : List MidiEvent}
  {finishMs : Int}

/-- An event of the stream. -/
def record (recorder : PerformanceEvidenceRecorder) (event : MidiEvent) :
    PerformanceEvidenceRecorder × Except EngineError (Option RecordedObservation) :=
  recorder.recordMidiEvent event.eventType.literal event.noteNumber event.velocity
    event.timestampMs event.performanceTimeMs

/-- A recorder of MIDI, whose open notes pass the checks of an observation. -/
structure Ok (recorder : PerformanceEvidenceRecorder) : Prop where
  source : recorder.source = .midi
  opened : ∀ entry ∈ recorder.activeMidiNotes.entries, ∃ event : MidiEvent, entry.2 = event.opened

theorem initial_ok : (initial .midi).Ok where
  source := rfl
  opened := fun _ h => absurd h List.not_mem_nil

theorem record_strike (hok : recorder.Ok) (h : event.Strikes) :
    recorder.record event =
      ({ recorder with
        activeMidiNotes := recorder.activeMidiNotes.set event.noteNumber event.opened }, .ok none) := by
  have hsource : ¬recorder.source ≠ .midi := not_not.mpr hok.source
  have hvelocity : ¬(event.velocity < 0 ∨ 127 < event.velocity) := by
    have := event.velocity_nonneg
    have := event.velocity_le
    omega
  have hnumber : ¬(event.noteNumber < 0 ∨ 127 < event.noteNumber) := by
    have := event.noteNumber_nonneg
    have := event.noteNumber_le
    omega
  have hstrikes : event.eventType.literal = "note_on" ∧ 0 < event.velocity :=
    ⟨MidiEventType.literal_eq.mpr h.1, h.2⟩
  rw [record, recordMidiEvent, if_neg hsource, if_neg hvelocity, if_pos hstrikes, midiPitchName,
    if_neg hnumber]
  rfl

/-- What is no strike looks for the open note. -/
theorem record_other (hok : recorder.Ok) (h : ¬event.Strikes) :
    recorder.record event =
      match recorder.activeMidiNotes.get event.noteNumber with
      | none => (recorder, .ok none)
      | some started =>
        match started.observation event.timestampMs with
        | .error message =>
          ({ recorder with
            activeMidiNotes := recorder.activeMidiNotes.delete event.noteNumber },
            .error (.valueError message))
        | .ok observation =>
          ({ recorder with
            activeMidiNotes := recorder.activeMidiNotes.delete event.noteNumber
            observations := recorder.observations ++ [observation] }, .ok (some observation)) := by
  have hsource : ¬recorder.source ≠ .midi := not_not.mpr hok.source
  have hvelocity : ¬(event.velocity < 0 ∨ 127 < event.velocity) := by
    have := event.velocity_nonneg
    have := event.velocity_le
    omega
  have hstrikes : ¬(event.eventType.literal = "note_on" ∧ 0 < event.velocity) :=
    fun hon => h ⟨MidiEventType.literal_eq.mp hon.1, hon.2⟩
  have hknown : ¬(event.eventType.literal ≠ "note_off" ∧ event.eventType.literal ≠ "note_on") := by
    cases event.eventType <;> decide
  rw [record, recordMidiEvent, if_neg hsource, if_neg hvelocity, if_neg hstrikes, if_neg hknown]

/-- The three ways through a call. -/
theorem record_cases (hok : recorder.Ok) (event : MidiEvent) :
    (event.Strikes ∧ recorder.record event =
      ({ recorder with
        activeMidiNotes := recorder.activeMidiNotes.set event.noteNumber event.opened },
        .ok none)) ∨
    (¬event.Strikes ∧ recorder.activeMidiNotes.get event.noteNumber = none ∧
      recorder.record event = (recorder, .ok none)) ∨
    (¬event.Strikes ∧ ∃ struck : MidiEvent,
      recorder.activeMidiNotes.get event.noteNumber = some struck.opened ∧
      recorder.record event =
        ({ recorder with
          activeMidiNotes := recorder.activeMidiNotes.delete event.noteNumber
          observations := recorder.observations ++ [struck.observation event.timestampMs] },
          .ok (some (struck.observation event.timestampMs)))) := by
  by_cases h : event.Strikes
  · exact .inl ⟨h, record_strike hok h⟩
  · have hrecord := record_other hok h
    cases hget : recorder.activeMidiNotes.get event.noteNumber with
    | none =>
      rw [hget] at hrecord
      exact .inr (.inl ⟨h, rfl, hrecord⟩)
    | some started =>
      obtain ⟨struck, hstruck : started = struck.opened⟩ :=
        hok.opened _ (JsMap.get_eq_some_iff.mp hget)
      rw [hget, hstruck] at hrecord
      simp only [struck.opened_observation] at hrecord
      exact .inr (.inr ⟨h, struck, congrArg some hstruck, hrecord⟩)

theorem record_ok (hok : recorder.Ok) : (recorder.record event).1.Ok := by
  obtain ⟨-, h⟩ | ⟨-, -, h⟩ | ⟨-, struck, -, h⟩ := record_cases hok event
  · rw [h]
    refine ⟨hok.source, fun entry hentry => ?_⟩
    obtain rfl | hold := List.mem_cons.mp (JsMap.entries_set_perm.mem_iff.mp hentry)
    · exact ⟨event, rfl⟩
    · exact hok.opened entry (List.mem_of_mem_filter hold)
  · rw [h]
    exact hok
  · rw [h]
    exact ⟨hok.source, fun entry hentry => hok.opened entry (List.mem_of_mem_filter hentry)⟩

theorem record_answers (hok : recorder.Ok) :
    ∃ observation, (recorder.record event).2 = .ok observation := by
  obtain ⟨-, h⟩ | ⟨-, -, h⟩ | ⟨-, struck, -, h⟩ := record_cases hok event <;> exact ⟨_, by rw [h]⟩

end PerformanceEvidenceRecorder

/-! ## What becomes of the open notes -/

/-- The observation of an open note, if it is not struck again before it ends. -/
def ends (finishMs : Int) (rest : List MidiEvent) (entry : Int × OpenNote) :
    Option RecordedObservation :=
  match next entry.1 rest with
  | none => (entry.2.observation finishMs).toOption
  | some event =>
    if event.Strikes then none else (entry.2.observation event.timestampMs).toOption

/-- The observations of the notes that are struck and not struck again while they are open. -/
def settledNotes (finishMs : Int) : List MidiEvent → List RecordedObservation
  | [] => []
  | event :: rest =>
    (if event.Strikes then (ends finishMs rest (event.noteNumber, event.opened)).toList else []) ++
      settledNotes finishMs rest

theorem ends_cons_of_ne {event : MidiEvent} {entry : Int × OpenNote}
    (h : entry.1 ≠ event.noteNumber) (finishMs : Int) (rest : List MidiEvent) :
    ends finishMs (event :: rest) entry = ends finishMs rest entry := by
  have hnext : next entry.1 (event :: rest) = next entry.1 rest :=
    List.find?_cons_of_neg (by simpa using h.symm)
  rw [ends, ends, hnext]

theorem ends_cons_self (event : MidiEvent) (started : OpenNote) (finishMs : Int)
    (rest : List MidiEvent) :
    ends finishMs (event :: rest) (event.noteNumber, started) =
      if event.Strikes then none else (started.observation event.timestampMs).toOption := by
  have hnext : next event.noteNumber (event :: rest) = some event :=
    List.find?_cons_of_pos (by simp)
  rw [ends, hnext]

theorem ends_opened (event : MidiEvent) (finishMs : Int) (rest : List MidiEvent) :
    ends finishMs rest (event.noteNumber, event.opened) =
      if ∃ other ∈ next event.noteNumber rest, other.Strikes then none
      else some (event.observation (endedAt finishMs event.noteNumber rest)) := by
  rw [ends, endedAt]
  cases next event.noteNumber rest with
  | none => simp [opened_observation, Except.toOption]
  | some other =>
    by_cases h : other.Strikes
    · simp [h]
    · simp [h, opened_observation, Except.toOption]

/-- The settled notes are those that are struck but for the ones that a note-on ends. -/
theorem settledNotes_sublist (finishMs : Int) (events : List MidiEvent) :
    (settledNotes finishMs events).Sublist (struckNotes finishMs events) := by
  induction events with
  | nil => exact .slnil
  | cons event rest ih =>
    rw [settledNotes, struckNotes]
    by_cases h : event.Strikes
    · rw [if_pos h, if_pos h, ends_opened]
      split_ifs
      · exact ih.cons _
      · exact ih.cons_cons _
    · rw [if_neg h, if_neg h]
      exact ih

theorem settledNotes_eq_iff (finishMs : Int) (events : List MidiEvent) :
    settledNotes finishMs events = struckNotes finishMs events ↔ NoRestrike events := by
  induction events with
  | nil => exact iff_of_true rfl trivial
  | cons event rest ih =>
    rw [settledNotes, struckNotes, NoRestrike, ← ih]
    by_cases h : event.Strikes
    · rw [if_pos h, if_pos h, ends_opened]
      by_cases hagain : ∃ other ∈ next event.noteNumber rest, other.Strikes
      · rw [if_pos hagain]
        have hshort := (settledNotes_sublist finishMs rest).length_le
        refine iff_of_false (fun heq => ?_) fun hnone => ?_
        · have hlength := congrArg List.length heq
          simp only [Option.toList_none, List.nil_append, List.length_cons] at hlength
          omega
        · obtain ⟨other, hmem, hstrikes⟩ := hagain
          exact hnone.1 h other hmem hstrikes
      · rw [if_neg hagain]
        have hnone : event.Strikes → ∀ other ∈ next event.noteNumber rest, ¬other.Strikes :=
          fun _ other hmem hstrikes => hagain ⟨other, hmem, hstrikes⟩
        rw [and_iff_right hnone, Option.toList_some, List.singleton_append, List.cons_inj_right]
    · rw [if_neg h, if_neg h]
      simp [h]

/-! ## A run -/

namespace PerformanceEvidenceRecorder

variable {recorder : PerformanceEvidenceRecorder} {event : MidiEvent} {rest events : List MidiEvent}
  {finishMs : Int}

/-- What is recorded, and what will be of the notes that are open. -/
def settles (finishMs : Int) (rest : List MidiEvent) (recorder : PerformanceEvidenceRecorder) :
    List RecordedObservation :=
  recorder.observations ++ recorder.activeMidiNotes.entries.filterMap (ends finishMs rest)

/-- The open note of the event, and the others, which wait for the rest. -/
theorem filterMap_ends_perm (event : MidiEvent) (rest : List MidiEvent) (finishMs : Int)
    (notes : JsMap Int OpenNote) :
    (notes.entries.filterMap (ends finishMs (event :: rest))).Perm
      (((notes.get event.noteNumber).bind fun started =>
          ends finishMs (event :: rest) (event.noteNumber, started)).toList ++
        (notes.delete event.noteNumber).entries.filterMap (ends finishMs rest)) := by
  have hothers : (notes.delete event.noteNumber).entries.filterMap (ends finishMs (event :: rest)) =
      (notes.delete event.noteNumber).entries.filterMap (ends finishMs rest) := by
    refine List.filterMap_congr fun entry hentry => ends_cons_of_ne ?_ finishMs rest
    simpa using List.of_mem_filter hentry
  cases hget : notes.get event.noteNumber with
  | none =>
    rw [← hothers, JsMap.entries_delete hget]
    exact .rfl
  | some started =>
    rw [← hothers, Option.bind_some, ← Lists.filterMap_cons_toList]
    exact (JsMap.entries_perm hget).filterMap _

/-- One event: what it strikes is added to what will be. -/
theorem settles_record (hok : recorder.Ok) :
    (settles finishMs rest (recorder.record event).1).Perm
      (settles finishMs (event :: rest) recorder ++
        if event.Strikes then (ends finishMs rest (event.noteNumber, event.opened)).toList
        else []) := by
  have hopen := filterMap_ends_perm event rest finishMs recorder.activeMidiNotes
  obtain ⟨h, hrecord⟩ | ⟨h, hget, hrecord⟩ | ⟨h, struck, hget, hrecord⟩ := record_cases hok event
  · -- the open note of that number, if there is one, is lost
    have hlost : ((recorder.activeMidiNotes.get event.noteNumber).bind fun started =>
        ends finishMs (event :: rest) (event.noteNumber, started)) = none := by
      cases recorder.activeMidiNotes.get event.noteNumber with
      | none => rfl
      | some started => rw [Option.bind_some, ends_cons_self, if_pos h]
    rw [hlost] at hopen
    have hset := ((JsMap.entries_set_perm (m := recorder.activeMidiNotes) (k := event.noteNumber)
      (v := event.opened)).filterMap (ends finishMs rest))
    rw [Lists.filterMap_cons_toList] at hset
    rw [hrecord, if_pos h, settles, settles, List.append_assoc]
    refine .append_left _ (hset.trans ?_)
    exact List.perm_append_comm.trans (.append_right _ hopen.symm)
  · rw [hget] at hopen
    rw [JsMap.entries_delete hget] at hopen
    rw [hrecord, if_neg h, List.append_nil, settles, settles]
    exact .append_left _ hopen.symm
  · have hends : ((recorder.activeMidiNotes.get event.noteNumber).bind fun started =>
        ends finishMs (event :: rest) (event.noteNumber, started)) =
        some (struck.observation event.timestampMs) := by
      rw [hget, Option.bind_some, ends_cons_self, if_neg h, opened_observation]
      rfl
    rw [hends] at hopen
    rw [hrecord, if_neg h, List.append_nil, settles, settles, List.append_assoc]
    exact .append_left _ hopen.symm

theorem after_ok (hok : recorder.Ok) (events : List MidiEvent) :
    (Transition.after record recorder events).Ok := by
  induction events generalizing recorder with
  | nil => exact hok
  | cons event rest ih => exact ih (record_ok hok)

theorem answers_ok (hok : recorder.Ok) (events : List MidiEvent) :
    ∀ answer ∈ Transition.answers record recorder events, ∃ observation, answer = .ok observation := by
  induction events generalizing recorder with
  | nil => exact fun _ h => absurd h List.not_mem_nil
  | cons event rest ih =>
    rw [Transition.answers, List.forall_mem_cons]
    exact ⟨record_answers hok, ih (record_ok hok)⟩

/-- A run, by induction on its events. -/
theorem settles_after (hok : recorder.Ok) (events : List MidiEvent) :
    (settles finishMs [] (Transition.after record recorder events)).Perm
      (settles finishMs events recorder ++ settledNotes finishMs events) := by
  induction events generalizing recorder with
  | nil =>
    rw [settledNotes, List.append_nil]
    exact .rfl
  | cons event rest ih =>
    rw [Transition.after_cons, settledNotes, ← List.append_assoc]
    exact (ih (record_ok hok)).trans (.append_right _ (settles_record hok))

/-! ## The finish -/

theorem finishNotes_ok (finishMs : Int) (recorder : PerformanceEvidenceRecorder)
    {entries : List (Int × OpenNote)}
    (h : ∀ entry ∈ entries, ∃ event : MidiEvent, entry.2 = event.opened) :
    ∃ observations, (finishNotes finishMs recorder entries).2 = .ok observations ∧
      (finishNotes finishMs recorder entries).1 =
        { recorder with
          activeMidiNotes := .empty
          observations := recorder.observations ++ entries.filterMap (ends finishMs []) } := by
  induction entries generalizing recorder with
  | nil => exact ⟨[], rfl, by rw [List.filterMap_nil, List.append_nil]; rfl⟩
  | cons entry entries ih =>
    rw [List.forall_mem_cons] at h
    obtain ⟨⟨struck, hstruck⟩, hrest⟩ := h
    obtain ⟨number, started⟩ := entry
    obtain rfl : started = struck.opened := hstruck
    have hobservation := struck.opened_observation finishMs
    obtain ⟨observations, hanswer, hafter⟩ := ih
      { recorder with observations := recorder.observations ++ [struck.observation finishMs] } hrest
    have hends : ends finishMs [] (number, struck.opened) = some (struck.observation finishMs) := by
      show (struck.opened.observation finishMs).toOption = _
      rw [hobservation]
      rfl
    refine ⟨struck.observation finishMs :: observations, ?_, ?_⟩
    · rw [finishNotes, hobservation]
      show Except.map _ (finishNotes finishMs _ entries).2 = _
      rw [hanswer]
      rfl
    · rw [finishNotes, hobservation]
      show (finishNotes finishMs _ entries).1 = _
      rw [hafter, List.filterMap_cons_some hends, List.append_assoc]
      rfl

theorem finish_ok (hok : recorder.Ok) (finishMs : Int) :
    (∃ observations, (recorder.finishOpenMidiNotes finishMs).2 = .ok observations) ∧
      (recorder.finishOpenMidiNotes finishMs).1.observations.Perm
        (settles finishMs [] recorder) := by
  have hsource : ¬recorder.source ≠ .midi := not_not.mpr hok.source
  have hsorted := List.perm_insertionSort (fun a b : Int × OpenNote => a.1 ≤ b.1)
    recorder.activeMidiNotes.entries
  obtain ⟨observations, hanswer, hafter⟩ := finishNotes_ok finishMs recorder
    fun entry hentry => hok.opened entry (hsorted.mem_iff.mp hentry)
  rw [finishOpenMidiNotes, if_neg hsource]
  refine ⟨⟨observations, hanswer⟩, ?_⟩
  rw [hafter]
  exact .append_left _ (hsorted.filterMap _)

/-- A new recorder of MIDI records the notes that are settled. -/
theorem finish_perm (events : List MidiEvent) (finishMs : Int) :
    ((Transition.after record (initial .midi) events).finishOpenMidiNotes finishMs).1.observations.Perm
      (settledNotes finishMs events) :=
  (finish_ok (after_ok initial_ok events) finishMs).2.trans (settles_after initial_ok events)

/-- They are all the notes that are struck if no note is struck while it is open. -/
theorem finish_perm_iff (events : List MidiEvent) (finishMs : Int) :
    ((Transition.after record (initial .midi) events).finishOpenMidiNotes finishMs).1.observations.Perm
      (struckNotes finishMs events) ↔ NoRestrike events := by
  have hsettled := finish_perm events finishMs
  rw [← settledNotes_eq_iff finishMs]
  constructor
  · intro h
    exact (settledNotes_sublist finishMs events).eq_of_length (hsettled.symm.trans h).length_eq
  · intro h
    exact h ▸ hsettled

/-- No call raises, and each note that is struck is observed, once, from its note-on to
its end. -/
structure Conserves (events : List MidiEvent) (finishMs : Int) : Prop where
  answers : ∀ answer ∈ Transition.answers record (initial .midi) events,
    ∃ observation, answer = .ok observation
  finish : ∃ observations,
    ((Transition.after record (initial .midi) events).finishOpenMidiNotes finishMs).2 =
      .ok observations
  observations :
    ((Transition.after record (initial .midi) events).finishOpenMidiNotes finishMs).1.observations.Perm
      (struckNotes finishMs events)

/-- MIDI evidence is conserved if no note is struck while it is open, and only then. -/
theorem midi_evidence_conserved (events : List MidiEvent) (finishMs : Int) :
    Conserves events finishMs ↔ NoRestrike events := by
  constructor
  · intro h
    exact (finish_perm_iff events finishMs).mp h.observations
  · intro h
    have hfinish := (finish_ok (after_ok initial_ok events) finishMs).1
    exact ⟨answers_ok initial_ok events, hfinish, (finish_perm_iff events finishMs).mpr h⟩

/-- A note-on or note-off of middle C. -/
def middleC (eventType : MidiEventType) (timestampMs : Nat) : MidiEvent where
  eventType
  noteNumber := 60
  velocity := if eventType = .noteOn then 90 else 0
  timestampMs
  noteNumber_nonneg := by decide
  noteNumber_le := by decide
  velocity_nonneg := by split_ifs <;> decide
  velocity_le := by split_ifs <;> decide
  timestampMs_nonneg := Int.natCast_nonneg timestampMs
  performanceTimeMs := timestampMs
  performanceTimeMs_nonneg := Nat.cast_nonneg timestampMs

/-- Of a note that is struck twice before it is released, the first strike is lost. -/
theorem restruck_note_lost :
    ¬Conserves [middleC .noteOn 0, middleC .noteOn 100, middleC .noteOff 200] 300 := by
  intro h
  have hlength := h.observations.length_eq
  revert hlength
  decide

end PerformanceEvidenceRecorder

/-! ## The session -/

namespace PerformanceClock

variable {config : ClockConfig} {roundBeat : ℚ → ℚ} {clock : PerformanceClock} {nowMs : ℚ}

theorem snapshot_nonneg (roundBeat : ℚ → ℚ) :
    0 ≤ (clock.snapshot config roundBeat nowMs).2.performanceElapsedMs :=
  config.performanceElapsedMs_nonneg

theorem resume_nonneg {snapshot : PerformanceClockSnapshot}
    (h : (clock.resume config roundBeat nowMs).2 = .ok snapshot) :
    0 ≤ snapshot.performanceElapsedMs := by
  unfold resume at h
  split at h
  · exact absurd h (by simp)
  · split_ifs at h
    obtain rfl := Except.ok.inj h
    exact snapshot_nonneg roundBeat

end PerformanceClock

namespace SessionRuntime

variable {config : RuntimeConfig} {runtime : SessionRuntime} {nowMs : ℚ}

/-- No sync shows a time before the start. -/
theorem performanceSync_nonneg {sync : PerformanceClockSync}
    (h : (runtime.performanceSync config nowMs).2 = .ok sync) : 0 ≤ sync.performanceTimeMs := by
  cases hpending : runtime.resumeCountInStartedAtMs with
  | none =>
    rw [performanceSync_idle hpending] at h
    obtain rfl := Except.ok.inj h
    exact PerformanceClock.snapshot_nonneg config.roundBeat
  | some startedAtMs =>
    rw [performanceSync_pending hpending] at h
    split_ifs at h
    · obtain rfl := Except.ok.inj h
      exact PerformanceClock.snapshot_nonneg config.roundBeat
    · obtain ⟨snapshot, hsnapshot, rfl⟩ := Python.map_eq_ok.mp h
      exact PerformanceClock.resume_nonneg hsnapshot

theorem processMidiEvent_nonneg {t : ℚ}
    (h : (runtime.processMidiEvent config nowMs).2 = .ok (some t)) : 0 ≤ t := by
  unfold processMidiEvent processInput at h
  split_ifs at h
  obtain ⟨sync, hsync, htime⟩ := Python.map_eq_ok.mp h
  split_ifs at htime
  obtain rfl := Option.some.inj htime
  exact performanceSync_nonneg hsync

/-- What the clock's methods do to a session. -/
def onCall (config : RuntimeConfig) (runtime : SessionRuntime) (nowMs : ℚ) :
    ClockCall → SessionRuntime
  | .start => (runtime.startPerformance config nowMs).1
  | .pause => (runtime.pausePerformance config nowMs).1
  | .resume => (runtime.resumePerformance config nowMs).1
  | .snapshot => (runtime.performanceSync config nowMs).1

end SessionRuntime

/-- A `PerformanceSessionRuntime` with its recorder. -/
structure RecordingSession where
  runtime : SessionRuntime
  evidenceRecorder : PerformanceEvidenceRecorder

/-- What a session is told: a message of the player's, or a call of its clock. -/
inductive SessionInput
  | midi (payload : ClientMidiEventPayload)
  | clock (call : ClockCall) (nowMs : ℚ)

namespace RecordingSession

/-- A session of MIDI. -/
def initial : RecordingSession := ⟨.initial .midi, .initial .midi⟩

variable (config : RuntimeConfig)

def processMidiEvent (session : RecordingSession) (payload : ClientMidiEventPayload) :
    RecordingSession × Except EngineError (Option RecordedObservation) :=
  match session.runtime.processMidiEvent config payload.timestampMs with
  | (runtime, .error message) => ({ session with runtime }, .error (.runtimeError message))
  | (runtime, .ok none) => ({ session with runtime }, .ok none)
  | (runtime, .ok (some performanceTimeMs)) =>
    let (evidenceRecorder, answer) :=
      session.evidenceRecorder.recordMidiEvent payload.eventType.literal payload.noteNumber
        payload.velocity payload.timestampMs performanceTimeMs
    (⟨runtime, evidenceRecorder⟩, answer)

def finalizePerformanceObservations (session : RecordingSession) (nowMs : Int) :
    RecordingSession × Except EngineError (List RecordedObservation) :=
  match session.runtime.performanceSync config nowMs with
  | (runtime, .error message) => ({ session with runtime }, .error (.runtimeError message))
  | (runtime, .ok _) =>
    let (evidenceRecorder, answer) := session.evidenceRecorder.finishOpenMidiNotes nowMs
    (⟨runtime, evidenceRecorder⟩, answer)

def step (session : RecordingSession) : SessionInput → RecordingSession
  | .midi payload => (session.processMidiEvent config payload).1
  | .clock call nowMs => { session with runtime := session.runtime.onCall config nowMs call }

/-- The messages that arrive while the clock runs. -/
def heard : SessionRuntime → List SessionInput → List MidiEvent
  | _, [] => []
  | runtime, .midi payload :: rest =>
    match h : (runtime.processMidiEvent config payload.timestampMs).2 with
    | .ok (some performanceTimeMs) =>
      ⟨payload, performanceTimeMs, SessionRuntime.processMidiEvent_nonneg h⟩ ::
        heard (runtime.processMidiEvent config payload.timestampMs).1 rest
    | _ => heard (runtime.processMidiEvent config payload.timestampMs).1 rest
  | runtime, .clock call nowMs :: rest => heard (runtime.onCall config nowMs call) rest

variable {config}

/-- The recorder of a session is told what the session hears. -/
theorem run_recorder (session : RecordingSession) (inputs : List SessionInput) :
    (inputs.foldl (step config) session).evidenceRecorder =
      Transition.after PerformanceEvidenceRecorder.record session.evidenceRecorder
        (heard config session.runtime inputs) := by
  induction inputs generalizing session with
  | nil => rfl
  | cons input rest ih =>
    rw [List.foldl_cons, ih]
    cases input with
    | clock call nowMs => rfl
    | midi payload =>
      have hruntime : (session.processMidiEvent config payload).1.runtime =
          (session.runtime.processMidiEvent config payload.timestampMs).1 := by
        unfold processMidiEvent
        split <;> rename_i h <;> rw [h]
      show Transition.after _ (session.processMidiEvent config payload).1.evidenceRecorder
        (heard config (session.processMidiEvent config payload).1.runtime rest) = _
      rw [hruntime, heard]
      split
      · rename_i performanceTimeMs h
        have hrecorder : (session.processMidiEvent config payload).1.evidenceRecorder =
            (session.evidenceRecorder.record
              ⟨payload, performanceTimeMs, SessionRuntime.processMidiEvent_nonneg h⟩).1 := by
          have hanswer : session.runtime.processMidiEvent config payload.timestampMs =
              ((session.runtime.processMidiEvent config payload.timestampMs).1,
                .ok (some performanceTimeMs)) := Prod.ext rfl h
          rw [processMidiEvent, hanswer]
          rfl
        rw [hrecorder]
        rfl
      · rename_i hunheard
        have hrecorder : (session.processMidiEvent config payload).1.evidenceRecorder =
            session.evidenceRecorder := by
          unfold processMidiEvent
          split
          · rfl
          · rfl
          · rename_i h
            exact absurd (congrArg Prod.snd h) (hunheard _)
        rw [hrecorder]

/-- What a session records is conserved under the condition on what it hears. -/
theorem session_conserves (inputs : List SessionInput) {nowMs : Int} {sync : PerformanceClockSync}
    (hsync : ((inputs.foldl (step config) initial).runtime.performanceSync config nowMs).2 =
      .ok sync) :
    (((inputs.foldl (step config) initial).finalizePerformanceObservations config
        nowMs).1.evidenceRecorder.observations.Perm
      (struckNotes nowMs (heard config (.initial .midi) inputs))) ↔
      NoRestrike (heard config (.initial .midi) inputs) := by
  have hrun := @run_recorder config initial inputs
  have hanswer : (inputs.foldl (step config) initial).runtime.performanceSync config nowMs =
      (((inputs.foldl (step config) initial).runtime.performanceSync config nowMs).1, .ok sync) :=
    Prod.ext rfl hsync
  rw [finalizePerformanceObservations, hanswer]
  show ((inputs.foldl (step config) initial).evidenceRecorder.finishOpenMidiNotes
    nowMs).1.observations.Perm _ ↔ _
  rw [hrun]
  exact PerformanceEvidenceRecorder.finish_perm_iff _ nowMs

end RecordingSession

end NoteVerse.Practice
