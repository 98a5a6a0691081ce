import NoteVerse.Editor.ImportedEvents

/-!
# The notes that the importer reads

What an event is written as, apart from its place: its base and dots, its notes and its stem
direction. The importer reads a chord from its first note (`readsItems_root`) and from those
with a `chord` element that come right after it (`readsItems_chord`); a measure is read from its
items (`ReadsItems.append`), and no two events of a text have the same id, so that each has
the stem direction that was read with it (`getEventStemDirectionOverride_eq`).
-/

namespace NoteVerse.Editor

open Js Xml Xml.Node

/-- A note without its ties and its source. -/
structure NoteText where
  id : NoteAtomId
  pitch : Pitch
  accidental : Option Accidental
  fingering : Option String
  deriving DecidableEq, Repr

structure EventText where
  id : EventId
  kind : EventKind
  rhythmNotation : RhythmNotation
  notes : List NoteText
  deriving DecidableEq, Repr

def NoteAtom.text (atom : NoteAtom) : NoteText :=
  ⟨atom.id, atom.pitch, atom.accidental, atom.fingering⟩

def VoiceEvent.text (event : VoiceEvent) : EventText :=
  ⟨event.id, event.kind, event.rhythm.rhythmNotation, event.notes.map NoteAtom.text⟩

theorem VoiceEvent.text_untied (event : VoiceEvent) : event.untied.text = event.text := by
  rcases event with event | event
  · simp only [untied, text, notes_pitched, List.map_map]
    rfl
  · rfl

/-- The control that gives an event its stem direction. -/
def stemControl (event : EventText × Option StemDirectionOverride) :
    Option (EventId × Option StemDirectionOverride) :=
  event.2.map fun direction => (event.1.id, some direction)

namespace MusicXmlImporter

/-! ## What the steps of the importer read -/

/-- `s'` is `s` with more events, of the given texts and stem directions. -/
structure Reads (s s' : ImportState) (events : List (EventText × Option StemDirectionOverride)) :
    Prop where
  texts : s'.events.map VoiceEvent.text = s.events.map VoiceEvent.text ++ events.map Prod.fst
  stems : s'.notationControls.filterMap NotationControl.stem? =
    s.notationControls.filterMap NotationControl.stem? ++ events.filterMap stemControl

theorem Reads.refl (s : ImportState) : Reads s s [] := ⟨by simp, by simp⟩

variable {events : List (EventText × Option StemDirectionOverride)} {s s' : ImportState}
  {m m' : MeasureState} {atom : NoteAtom} {note item : Node × Nat} {items : List (Node × Nat)}

theorem Reads.trans {s₁ s₂ s₃ : ImportState}
    {events' : List (EventText × Option StemDirectionOverride)} (h : Reads s₁ s₂ events)
    (h' : Reads s₂ s₃ events') : Reads s₁ s₃ (events ++ events') where
  texts := by rw [h'.texts, h.texts, List.map_append, List.append_assoc]
  stems := by rw [h'.stems, h.stems, List.filterMap_append, List.append_assoc]

theorem Touches.reads (h : Touches s s') : Reads s s' [] where
  texts := (h.map VoiceEvent.text_untied).trans (List.append_nil _).symm
  stems := h.stems.trans (List.append_nil _).symm

/-! ## Reading a note -/

def readRhythmNotation (note : Node) : RhythmNotation :=
  ⟨toDurationBase ((note.pathText ["type"]).map trim), (note.childrenNamed "dot").length⟩

def readStemDirection (note : Node) : Option StemDirectionOverride :=
  toStemDirectionOverride ((note.pathText ["stem"]).map trim)

/-- The id of the event that a node of a measure starts. -/
def eventIdAt (context : MeasureContext) (nodeIndex : Nat) : EventId :=
  toMeasureItemId context.partId context.measureIndex "-e" (nodeIndex + 1)

/-- The note atom of a node of a measure. -/
def noteAtomAt (context : MeasureContext) (note : Node × Nat) : Option NoteAtom :=
  toNoteAtom note.1 (toMeasureItemId context.partId context.measureIndex "-n" (note.2 + 1))

theorem ensureStaff_touches (s : ImportState) (partId : PartId) (staffNumber : Int) :
    Touches s (ensureStaff s partId staffNumber) ∧
      (ensureStaff s partId staffNumber).events = s.events := by
  rw [ensureStaff]
  split_ifs
  · exact ⟨.refl s, rfl⟩
  · exact ⟨⟨rfl, rfl, rfl, rfl⟩, rfl⟩

theorem ensureVoice_touches (s : ImportState) (partId : PartId) (staffId : StaffId)
    (voiceNumber : Int) : Touches s (ensureVoice s partId staffId voiceNumber) ∧
      (ensureVoice s partId staffId voiceNumber).events = s.events := by
  rw [ensureVoice]
  split_ifs
  · exact ⟨.refl s, rfl⟩
  · exact ⟨⟨rfl, rfl, rfl, rfl⟩, rfl⟩

/-- The state in which a note is read. -/
def ensured (s : ImportState) (context : MeasureContext) (note : Node) : ImportState :=
  ensureVoice (ensureStaff s context.partId (getPositiveInt (note.pathText ["staff"]) 1))
    context.partId (readStaffId context note) (getPositiveInt (note.pathText ["voice"]) 1)

theorem ensured_touches (s : ImportState) (context : MeasureContext) (note : Node) :
    Touches s (ensured s context note) ∧ (ensured s context note).events = s.events := by
  obtain ⟨hstaff, hstaff'⟩ := ensureStaff_touches s context.partId
    (getPositiveInt (note.pathText ["staff"]) 1)
  obtain ⟨hvoice, hvoice'⟩ := ensureVoice_touches
    (ensureStaff s context.partId (getPositiveInt (note.pathText ["staff"]) 1)) context.partId
    (readStaffId context note) (getPositiveInt (note.pathText ["voice"]) 1)
  exact ⟨hstaff.trans hvoice, hvoice'.trans hstaff'⟩

theorem addStemNotationControl_stems (s : ImportState) (eventId : EventId) (note : Node) :
    (addStemNotationControl s eventId note).events = s.events ∧
      (addStemNotationControl s eventId note).notationControls.filterMap NotationControl.stem? =
        s.notationControls.filterMap NotationControl.stem? ++
          ((readStemDirection note).map fun direction => (eventId, some direction)).toList := by
  rw [addStemNotationControl]
  unfold readStemDirection
  cases toStemDirectionOverride ((note.pathText ["stem"]).map trim) with
  | none => exact ⟨rfl, (List.append_nil _).symm⟩
  | some direction =>
    refine ⟨rfl, ?_⟩
    dsimp only
    rw [List.filterMap_append]
    rfl

/-- The event that a note starts. -/
theorem importRootNote_reads {context : MeasureContext} {note : Node} {input : PitchedEvent}
    {staffNumber durationTicks : Int}
    (h : importRootNote context m note input atom staffNumber durationTicks = .ok m') :
    Reads m.state m'.state [((VoiceEvent.pitched input).text, readStemDirection note)] ∧
      m'.lastEventByVoice = m.lastEventByVoice.set input.voiceId m.state.events.length := by
  obtain ⟨event, h₀, h⟩ := bind_eq_ok.mp h
  obtain ⟨s₁, h₁, h⟩ := bind_eq_ok.mp h
  obtain ⟨s₂, h₂, h⟩ := bind_eq_ok.mp h
  obtain ⟨s₃, h₃, h⟩ := bind_eq_ok.mp h
  obtain rfl := pure_eq_ok.mp h
  rw [createPitchedEvent] at h₀
  split_ifs at h₀
  obtain rfl := pure_eq_ok.mp h₀
  obtain ⟨hevents, hstems⟩ := addStemNotationControl_stems
    { m.state with events := m.state.events ++ [.pitched input] } input.id note
  have hpush : Reads m.state (addStemNotationControl
      { m.state with events := m.state.events ++ [.pitched input] } input.id note)
      [((VoiceEvent.pitched input).text, readStemDirection note)] := by
    refine ⟨?_, ?_⟩
    · rw [hevents, List.map_append]
      rfl
    · rw [hstems]
      unfold stemControl
      cases readStemDirection note with
      | none => rfl
      | some direction => rfl
  refine ⟨?_, rfl⟩
  exact hpush.trans ((addTieRelationshipEvent_touches h₁).trans
    ((addSlurRelationshipEvent_touches h₂).trans (addBeamRelationshipEvent_touches h₃))).reads

/-- The first note of an event. -/
theorem importNote_root {context : MeasureContext} (hchord : note.1.childrenNamed "chord" = [])
    (hrest : note.1.childrenNamed "rest" = []) (hatom : noteAtomAt context note = some atom)
    (h : importNote context m note.1 note.2 = .ok m') :
    Reads m.state m'.state [(⟨eventIdAt context note.2, .pitched, readRhythmNotation note.1,
        [atom.text]⟩, readStemDirection note.1)] ∧
      m'.lastEventByVoice.get (readVoiceId context note.1) = some m.state.events.length := by
  obtain ⟨hensure, hevents⟩ := ensured_touches m.state context note.1
  unfold noteAtomAt at hatom
  simp only [importNote, hchord, hrest, hatom, ne_eq, not_true_eq_false, if_false] at h
  obtain ⟨hreads, hlast⟩ := importRootNote_reads h
  refine ⟨hensure.reads.trans hreads, ?_⟩
  rw [hlast]
  refine JsMap.get_set_self.trans (congrArg some ?_)
  exact congrArg List.length hevents

theorem VoiceEvent.text_pushNote {event : VoiceEvent} (h : event.kind = .pitched)
    (atom : NoteAtom) : (pushNote atom event).text =
      { event.text with notes := event.text.notes ++ [atom.text] } := by
  rcases event with event | event
  · unfold pushNote VoiceEvent.text
    dsimp only [VoiceEvent.notes_pitched]
    rw [List.map_append]
    rfl
  · exact absurd h EventKind.noConfusion

/-- A note that joins the last event. -/
theorem importNote_chord {context : MeasureContext} {texts : List EventText} {last : EventText}
    (hchord : note.1.childrenNamed "chord" ≠ []) (hatom : noteAtomAt context note = some atom)
    (hlast : m.lastEventByVoice.get (readVoiceId context note.1) = some texts.length)
    (htexts : m.state.events.map VoiceEvent.text = texts ++ [last]) (hkind : last.kind = .pitched)
    (h : importNote context m note.1 note.2 = .ok m') :
    m'.lastEventByVoice = m.lastEventByVoice ∧
      m'.state.events.map VoiceEvent.text =
        texts ++ [{ last with notes := last.notes ++ [atom.text] }] ∧
      m'.state.notationControls.filterMap NotationControl.stem? =
        m.state.notationControls.filterMap NotationControl.stem? := by
  obtain ⟨hensure, hevents⟩ := ensured_touches m.state context note.1
  unfold noteAtomAt at hatom
  simp only [importNote, if_pos hchord, hatom] at h
  unfold importChordMember at h
  unfold readVoiceId at hlast
  simp only [hlast] at h
  obtain ⟨s₁, h₁, h⟩ := bind_eq_ok.mp h
  obtain ⟨s₂, h₂, h⟩ := bind_eq_ok.mp h
  obtain rfl := pure_eq_ok.mp h
  have htouches := (addTieRelationshipEvent_touches h₁).trans (addSlurRelationshipEvent_touches h₂)
  refine ⟨rfl, (htouches.map VoiceEvent.text_untied).trans ?_, htouches.stems.trans hensure.stems⟩
  -- the last event gets the note
  obtain ⟨events, event, hsplit, rfl, hevent⟩ : ∃ events event,
      m.state.events = events ++ [event] ∧ events.map VoiceEvent.text = texts ∧
        event.text = last := by
    obtain ⟨events, rest, hsplit, hmap, hrest⟩ := List.map_eq_append_iff.mp htexts
    obtain ⟨event, rfl, hevent⟩ := List.map_eq_singleton_iff.mp hrest
    exact ⟨events, event, hsplit, hmap, hevent⟩
  subst hevent
  have hmodify : (ensured m.state context note.1).events.modify
      (events.map VoiceEvent.text).length (pushNote atom) = events ++ [pushNote atom event] := by
    rw [hevents, hsplit, List.length_map, Lists.modify_append_last]
  refine (congrArg (List.map VoiceEvent.text) hmodify).trans ?_
  rw [List.map_append, List.map_singleton, VoiceEvent.text_pushNote hkind]

/-- A rest. -/
theorem importNote_rest {context : MeasureContext} (hchord : note.1.childrenNamed "chord" = [])
    (hrest : note.1.childrenNamed "rest" ≠ []) (h : importNote context m note.1 note.2 = .ok m') :
    Reads m.state m'.state [(⟨eventIdAt context note.2, .explicitRest, readRhythmNotation note.1,
      []⟩, none)] := by
  obtain ⟨hensure, hevents⟩ := ensured_touches m.state context note.1
  simp only [importNote, hchord, if_pos hrest, ne_eq, not_true_eq_false, if_false] at h
  obtain rfl := pure_eq_ok.mp h
  refine hensure.reads.trans ⟨?_, ?_⟩
  · unfold importRest createExplicitRestEvent
    dsimp only
    rw [List.map_append]
    rfl
  · exact (List.append_nil _).symm

/-! ## The items of a measure -/

/-- The importer reads the items as the events, whatever it has read before. -/
structure ReadsItems (context : MeasureContext) (items : List (Node × Nat))
    (events : List (EventText × Option StemDirectionOverride)) : Prop where
  reads : ∀ m m', items.foldlM (importNode context) m = .ok m' → Reads m.state m'.state events
  ids : (events.map (·.1.id)).Sublist (items.map fun item => eventIdAt context item.2)

variable {context : MeasureContext}

theorem ReadsItems.nil : ReadsItems context [] [] where
  reads m m' h := by
    obtain rfl := pure_eq_ok.mp h
    exact .refl m.state
  ids := .refl _

theorem ReadsItems.append {items' : List (Node × Nat)}
    {events' : List (EventText × Option StemDirectionOverride)}
    (h : ReadsItems context items events) (h' : ReadsItems context items' events') :
    ReadsItems context (items ++ items') (events ++ events') where
  reads m m' hfold := by
    rw [List.foldlM_append] at hfold
    obtain ⟨m₁, h₁, h₂⟩ := bind_eq_ok.mp hfold
    exact (h.reads m m₁ h₁).trans (h'.reads m₁ m' h₂)
  ids := by
    rw [List.map_append, List.map_append]
    exact h.ids.append h'.ids

/-- A node that is not a note moves the cursor at most. -/
theorem readsItems_other (h : item.1.hasTag "note" = false) :
    ReadsItems context [item] [] where
  reads m m' hfold := by
    rw [List.foldlM_cons] at hfold
    obtain ⟨m₁, h₁, h₂⟩ := bind_eq_ok.mp hfold
    obtain rfl := pure_eq_ok.mp h₂
    unfold importNode at h₁
    simp only [h, Bool.false_eq_true, if_false] at h₁
    split_ifs at h₁ with hforward hbackup
    · obtain rfl := pure_eq_ok.mp h₁
      exact .refl m.state
    · obtain rfl := pure_eq_ok.mp h₁
      exact .refl m.state
    · obtain rfl := pure_eq_ok.mp h₁
      exact .refl m.state
  ids := List.nil_sublist _

theorem importNode_note (h : item.1.hasTag "note") :
    importNode context m item = importNote context m item.1 item.2 := by
  have hnot : ∀ tag : String, tag ≠ "note" → item.1.hasTag tag = false := fun tag ht => by
    rw [Bool.eq_false_iff]
    exact fun h' => ht ((hasTag_iff.mp h').2.symm.trans (hasTag_iff.mp h).2)
  rw [importNode, hnot _ (by decide), hnot _ (by decide), h, if_neg (by decide),
    if_neg (by decide), if_pos rfl]

theorem readsItems_rest (hnote : item.1.hasTag "note") (hchord : item.1.childrenNamed "chord" = [])
    (hrest : item.1.childrenNamed "rest" ≠ []) :
    ReadsItems context [item] [(⟨eventIdAt context item.2, .explicitRest,
      readRhythmNotation item.1, []⟩, none)] where
  reads m m' hfold := by
    rw [List.foldlM_cons, importNode_note hnote] at hfold
    obtain ⟨m₁, h₁, h₂⟩ := bind_eq_ok.mp hfold
    obtain rfl := pure_eq_ok.mp h₂
    exact importNote_rest hchord hrest h₁
  ids := .refl _

/-- A note of a chord, in a voice. -/
structure ChordNote (context : MeasureContext) (voiceId : VoiceId) (item : Node × Nat)
    (text : NoteText) : Prop where
  hasTag : item.1.hasTag "note"
  voiceId : readVoiceId context item.1 = voiceId
  atom : ∃ atom, noteAtomAt context item = some atom ∧ atom.text = text

/-- The notes that join the last event, by induction on them. -/
theorem foldlM_chord {voiceId : VoiceId} {notes : List NoteText}
    (hnotes : List.Forall₂ (ChordNote context voiceId) items notes)
    (hchord : ∀ item ∈ items, item.1.childrenNamed "chord" ≠ []) {texts : List EventText}
    {last : EventText} (hlast : m.lastEventByVoice.get voiceId = some texts.length)
    (htexts : m.state.events.map VoiceEvent.text = texts ++ [last]) (hkind : last.kind = .pitched)
    (h : items.foldlM (importNode context) m = .ok m') :
    m'.state.events.map VoiceEvent.text = texts ++ [{ last with notes := last.notes ++ notes }] ∧
      m'.state.notationControls.filterMap NotationControl.stem? =
        m.state.notationControls.filterMap NotationControl.stem? := by
  induction hnotes generalizing m last with
  | nil =>
    obtain rfl := pure_eq_ok.mp h
    rw [List.append_nil]
    exact ⟨htexts, rfl⟩
  | @cons item text items notes hitem _ ih =>
    rw [List.foldlM_cons, importNode_note hitem.hasTag] at h
    obtain ⟨m₁, h₁, h⟩ := bind_eq_ok.mp h
    obtain ⟨hmember, hchord⟩ := List.forall_mem_cons.mp hchord
    obtain ⟨atom, hatom, rfl⟩ := hitem.atom
    obtain ⟨hlast₁, htexts₁, hstems₁⟩ := importNote_chord hmember hatom
      (hitem.voiceId ▸ hlast) htexts hkind h₁
    obtain ⟨htexts', hstems'⟩ := ih hchord (hlast₁ ▸ hlast) htexts₁ hkind h
    rw [List.append_assoc] at htexts'
    exact ⟨htexts', hstems'.trans hstems₁⟩

/-- The items of an event with notes. -/
theorem readsItems_chord {voiceId : VoiceId} {root : Node × Nat} {note : NoteText}
    {notes : List NoteText} (hroot : ChordNote context voiceId root note)
    (hnotes : List.Forall₂ (ChordNote context voiceId) items notes)
    (hfirst : root.1.childrenNamed "chord" = []) (hrest : root.1.childrenNamed "rest" = [])
    (hchord : ∀ item ∈ items, item.1.childrenNamed "chord" ≠ []) :
    ReadsItems context (root :: items) [(⟨eventIdAt context root.2, .pitched,
      readRhythmNotation root.1, note :: notes⟩, readStemDirection root.1)] where
  reads m m' hfold := by
    rw [List.foldlM_cons, importNode_note hroot.hasTag] at hfold
    obtain ⟨m₁, h₁, hfold⟩ := bind_eq_ok.mp hfold
    obtain ⟨atom, hatom, rfl⟩ := hroot.atom
    obtain ⟨hreads, hlast⟩ := importNote_root hfirst hrest hatom h₁
    have hlength : m.state.events.length = (m.state.events.map VoiceEvent.text).length :=
      (List.length_map _).symm
    rw [hroot.voiceId, hlength] at hlast
    obtain ⟨htexts, hstems⟩ := foldlM_chord hnotes hchord hlast hreads.texts rfl hfold
    exact ⟨htexts, hstems.trans hreads.stems⟩
  ids := (List.nil_sublist _).cons_cons _

/-- Texts between the items are not read. -/
theorem ReadsItems.of_filter {nodes : List (Node × Nat)}
    (h : ReadsItems context (nodes.filter fun node => node.1.isElement) events) :
    ReadsItems context nodes events where
  reads m m' hfold := by
    refine h.reads m m' ?_
    rw [List.foldlM_filter]
    refine Eq.trans ?_ hfold
    congr 1
    funext m node
    split_ifs with helement
    · rfl
    · have hnot : ∀ tag : String, node.1.hasTag tag = false := fun tag =>
        Bool.eq_false_iff.mpr fun htag => helement (hasTag_iff.mp htag).1
      rw [importNode, hnot, hnot, hnot, if_neg (by decide), if_neg (by decide), if_neg (by decide)]
  ids := h.ids.trans (List.filter_sublist.map _)

/-! ## The ids of the events -/

/-- The id of an event tells where it starts. -/
theorem toMeasureItemId_inj {partId partId' : PartId} {measureIndex measureIndex' : Nat}
    {n n' : Nat} (h : toMeasureItemId partId measureIndex "-e" n =
      toMeasureItemId partId' measureIndex' "-e" n') :
    partId = partId' ∧ measureIndex = measureIndex' ∧ n = n' := by
  have hdash : ∀ n : Nat, '-' ∉ (Nat.repr n).toList := fun n hmem =>
    absurd (isDigit_of_mem_natRepr hmem) (by decide)
  have hcast : ∀ n : Nat, numberToString (n + 1) = Nat.repr (n + 1) := fun n =>
    numberToString_ofNat (n + 1)
  have hlist := congrArg String.toList h
  unfold toMeasureItemId at hlist
  simp only [String.toList_append, numberToString_ofNat, hcast] at hlist
  have hsplit : ∀ (p : PartId) (m n : Nat), p.toList ++ "-m".toList ++ (Nat.repr m).toList ++
      "-e".toList ++ (Nat.repr n).toList = (p.toList ++ '-' :: 'm' :: (Nat.repr m).toList) ++
        '-' :: 'e' :: (Nat.repr n).toList := fun p m n => by simp
  rw [hsplit, hsplit] at hlist
  obtain ⟨hlist, hn⟩ := Lists.cut_last_inj (by simpa using hdash n) (by simpa using hdash n') hlist
  obtain ⟨hpart, hm⟩ := Lists.cut_last_inj (by simpa using hdash (measureIndex + 1))
    (by simpa using hdash (measureIndex' + 1)) hlist
  have hrepr : ∀ {a b : Nat}, (Nat.repr a).toList = (Nat.repr b).toList → a = b := fun hab =>
    Int.ofNat.inj (numberToString_injective (String.toList_injective hab))
  exact ⟨String.toList_injective hpart, Nat.succ.inj (hrepr (List.cons.inj hm).2),
    hrepr (List.cons.inj hn).2⟩

/-- The events that are read in the measures of parts have ids of their own. -/
theorem nodup_readIds {parts : List (Node × Nat)}
    {f : Node × Nat → Node × Nat → List (EventText × Option StemDirectionOverride)}
    (hparts : (parts.map fun part => getPartId part.1 part.2).Nodup)
    (hread : ∀ part ∈ parts, ∀ measure ∈ (part.1.childrenNamed "measure").zipIdx,
      ReadsItems (getMeasureContext (getPartId part.1 part.2) measure) measure.1.childNodes.zipIdx
        (f part measure)) :
    ((parts.flatMap fun part => (part.1.childrenNamed "measure").zipIdx.flatMap (f part)).map
      (·.1.id)).Nodup := by
  have hid : ∀ part ∈ parts, ∀ measure ∈ (part.1.childrenNamed "measure").zipIdx,
      ∀ id ∈ (f part measure).map (·.1.id), ∃ n,
        id = toMeasureItemId (getPartId part.1 part.2) measure.2 "-e" n := by
    intro part hp measure hm id hid
    obtain ⟨item, -, rfl⟩ := List.mem_map.mp ((hread part hp measure hm).ids.subset hid)
    exact ⟨item.2 + 1, rfl⟩
  rw [List.map_flatMap]
  refine Lists.nodup_flatMap_key _ (P := fun partId id => ∃ measureIndex n,
    id = toMeasureItemId partId measureIndex "-e" n) hparts (fun part hp => ?_)
    (fun part hp id hmem => ?_) ?_
  · rw [List.map_flatMap]
    refine Lists.nodup_flatMap_key Prod.snd (P := fun measureIndex id => ∃ n,
      id = toMeasureItemId (getPartId part.1 part.2) measureIndex "-e" n) ?_
      (fun measure hm => ?_) (hid part hp) ?_
    · rw [List.zipIdx_map_snd]
      exact List.nodup_range'
    · refine ((hread part hp measure hm).ids).nodup ?_
      have hmap : measure.1.childNodes.zipIdx.map (fun item =>
          eventIdAt (getMeasureContext (getPartId part.1 part.2) measure) item.2) =
          (List.range' 0 measure.1.childNodes.length).map
            (eventIdAt (getMeasureContext (getPartId part.1 part.2) measure)) := by
        rw [← List.zipIdx_map_snd, List.map_map]
        rfl
      rw [hmap]
      exact List.Nodup.map (fun a b hab => Nat.succ.inj (toMeasureItemId_inj hab).2.2)
        List.nodup_range'
    · rintro k k' id ⟨n, rfl⟩ ⟨n', heq⟩
      exact (toMeasureItemId_inj heq).2.1
  · obtain ⟨event, hevent, rfl⟩ := List.mem_map.mp hmem
    obtain ⟨measure, hm, hevent⟩ := List.mem_flatMap.mp hevent
    exact ⟨measure.2, hid part hp measure hm _ (List.mem_map_of_mem hevent)⟩
  · rintro k k' id ⟨m, n, rfl⟩ ⟨m', n', heq⟩
    exact (toMeasureItemId_inj heq).1

theorem getEventStemDirectionOverride_eq_find (controls : List NotationControl)
    (eventId : EventId) :
    getEventStemDirectionOverride controls eventId =
      ((controls.filterMap NotationControl.stem?).find? (·.1 == eventId)).bind (·.2) := by
  unfold getEventStemDirectionOverride
  induction controls with
  | nil => rfl
  | cons control controls ih =>
    rcases control with ⟨id, direction⟩ | _ | _ | _
    · rw [List.filterMap_cons]
      dsimp only [NotationControl.stem?]
      rw [List.find?_cons, List.find?_cons]
      dsimp only [NotationControl.isEventNotation]
      cases id == eventId with
      | true => rfl
      | false => exact ih
    · exact ih
    · exact ih
    · exact ih

/-- The control of an event among those of events with ids of their own. -/
theorem find_stemControl (hids : (events.map (·.1.id)).Nodup) :
    ∀ event ∈ events,
      ((events.filterMap stemControl).find? (·.1 == event.1.id)).bind (·.2) = event.2 := by
  induction events with
  | nil => exact fun event h => absurd h List.not_mem_nil
  | cons first events ih =>
    obtain ⟨hfirst, hids⟩ := List.nodup_cons.mp hids
    have hother : ∀ event ∈ events, first.1.id ≠ event.1.id := fun event he heq =>
      hfirst (List.mem_map.mpr ⟨event, he, heq.symm⟩)
    intro event he
    rw [List.filterMap_cons]
    rcases hdirection : first.2 with _ | direction
    · have hcontrol : stemControl first = none := by rw [stemControl, hdirection]; rfl
      rw [hcontrol]
      rcases List.mem_cons.mp he with rfl | he
      · -- it has none, and no other event has its id
        dsimp only
        rw [hdirection, List.find?_eq_none.mpr]
        · rfl
        · intro control hc hid
          obtain ⟨other, ho, hother'⟩ := List.mem_filterMap.mp hc
          obtain ⟨direction, -, rfl⟩ := Option.map_eq_some_iff.mp hother'
          exact hother other ho (beq_iff_eq.mp hid).symm
      · exact ih hids event he
    · have hcontrol : stemControl first = some (first.1.id, some direction) := by
        rw [stemControl, hdirection]
        rfl
      rw [hcontrol]
      dsimp only
      rcases List.mem_cons.mp he with rfl | he
      · rw [List.find?_cons_of_pos (by simp), hdirection]
        rfl
      · rw [List.find?_cons_of_neg (by simpa using hother event he)]
        exact ih hids event he

/-! ## Measures, parts and documents -/

theorem importMeasure_reads {partId : PartId} {measureElement : Node × Nat}
    (hread : ReadsItems (getMeasureContext partId measureElement)
      measureElement.1.childNodes.zipIdx events)
    (h : importMeasure partId s measureElement = .ok s') : Reads s s' events := by
  obtain ⟨m, hm, h⟩ := bind_eq_ok.mp h
  obtain ⟨gaps, -, h⟩ := bind_eq_ok.mp h
  obtain rfl := pure_eq_ok.mp h
  have hreads := hread.reads _ _ hm
  exact ⟨hreads.texts, hreads.stems⟩

/-- A loop reads what its passes read. -/
theorem foldlM_reads {α : Type} {step : ImportState → α → Throws ImportState}
    {f : α → List (EventText × Option StemDirectionOverride)} {xs : List α}
    (hstep : ∀ x ∈ xs, ∀ s s', step s x = .ok s' → Reads s s' (f x))
    (h : xs.foldlM step s = .ok s') : Reads s s' (xs.flatMap f) := by
  induction xs generalizing s with
  | nil =>
    obtain rfl := pure_eq_ok.mp h
    exact .refl s
  | cons x xs ih =>
    obtain ⟨s₁, h₁, h⟩ := bind_eq_ok.mp ((List.foldlM_cons ..).symm.trans h)
    obtain ⟨hx, hxs⟩ := List.forall_mem_cons.mp hstep
    exact (hx s s₁ h₁).trans (ih hxs h)

end MusicXmlImporter

open MusicXmlImporter

/-- The events of an imported document, each with its stem direction. -/
theorem importMusicXmlToEditorDomain_reads {xml : Node} {result : MusicXmlImportResult}
    {f : Node × Nat → Node × Nat → List (EventText × Option StemDirectionOverride)}
    (h : importMusicXmlToEditorDomain xml = .ok result)
    (hparts : ((getPartElements xml).zipIdx.map fun part => getPartId part.1 part.2).Nodup)
    (hread : ∀ part ∈ (getPartElements xml).zipIdx,
      ∀ measure ∈ (part.1.childrenNamed "measure").zipIdx,
        ReadsItems (getMeasureContext (getPartId part.1 part.2) measure)
          measure.1.childNodes.zipIdx (f part measure)) :
    result.document.events.map (fun event => (event.text,
      getEventStemDirectionOverride result.document.notationControls event.id)) =
      (getPartElements xml).zipIdx.flatMap fun part =>
        (part.1.childrenNamed "measure").zipIdx.flatMap (f part) := by
  obtain ⟨xmlDoc, hparse, h⟩ := bind_eq_ok.mp h
  obtain ⟨s, hs, h⟩ := bind_eq_ok.mp h
  obtain rfl := pure_eq_ok.mp h
  obtain rfl : xml = xmlDoc := by
    rw [parseMusicXml] at hparse
    split_ifs at hparse
    exact pure_eq_ok.mp hparse
  have hpart : ∀ part ∈ (getPartElements xml).zipIdx, ∀ s s',
      importPart (getPartNames xml) s part = .ok s' → Reads s s'
        ((part.1.childrenNamed "measure").zipIdx.flatMap (f part)) := by
    intro part hp s s' hpart
    have hreads := foldlM_reads (f := f part) (fun measure hm s s' hmeasure =>
      importMeasure_reads (hread part hp measure hm) hmeasure) hpart
    exact ⟨hreads.texts, hreads.stems⟩
  have hreads := foldlM_reads hpart hs
  have hids := nodup_readIds hparts hread
  generalize ((getPartElements xml).zipIdx.flatMap fun part =>
    (part.1.childrenNamed "measure").zipIdx.flatMap (f part)) = events at hreads hids
  have htexts : s.events.map VoiceEvent.text = events.map Prod.fst := hreads.texts
  have hstems : s.notationControls.filterMap NotationControl.stem? =
      events.filterMap stemControl := hreads.stems
  have hdirection : ∀ event ∈ events,
      getEventStemDirectionOverride s.notationControls event.1.id = event.2 := by
    intro event he
    rw [getEventStemDirectionOverride_eq_find, hstems]
    exact find_stemControl hids event he
  -- an event is its text with the direction that its id has
  have hleft : s.events.map (fun event => (event.text,
      getEventStemDirectionOverride s.notationControls event.id)) =
      (s.events.map VoiceEvent.text).map fun text =>
        (text, getEventStemDirectionOverride s.notationControls text.id) := by
    rw [List.map_map]
    rfl
  refine hleft.trans ?_
  rw [htexts, List.map_map]
  refine (List.map_congr_left fun event he => ?_).trans (List.map_id _)
  exact Prod.ext rfl (hdirection event he)

end NoteVerse.Editor
