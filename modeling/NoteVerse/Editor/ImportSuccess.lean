import NoteVerse.Editor.ImportedGaps

/-!
# When an import succeeds

The importer throws where a tie or a slur would connect a note to itself: that
is where an open start has the id of the note that stops it. It does not where
the marked notes have distinct ids and no note has two slurs of one number
(`SafeMarks`): an open start then never has the id of a note still to come
(`OpenStarts`).
-/

namespace NoteVerse.Editor

open Js Xml Xml.Node

namespace MusicXmlImporter

/-! ## Marked notes -/

def slurNumbers (note : Node) : List Int := (note.path ["notations", "slur"]).map getSlurNumber

/-- A note with a tie or a slur. -/
def isMarked (node : Node) : Bool :=
  node.hasTag "note" && (!(node.childrenNamed "tie").isEmpty || !(slurNumbers node).isEmpty)

/-- The marked notes among the nodes are named, by distinct ids, and the slurs
of each are numbered apart. -/
structure SafeMarks (nodes : List Node) : Prop where
  distinct : nodes.Pairwise fun a b =>
    isMarked a → isMarked b → a.getAttribute "id" ≠ b.getAttribute "id"
  named : ∀ node ∈ nodes, isMarked node → ∃ id, node.getAttribute "id" = some id ∧ id ≠ ""
  slurs : ∀ node ∈ nodes, isMarked node → (slurNumbers node).Nodup

variable {nodes later : List Node} {Q : NoteAtomId → Prop} {s : ImportState} {note : Node}
  {atom : NoteAtom} {partId : PartId} {context : MeasureContext} {m : MeasureState}

theorem SafeMarks.of_cons {node : Node} (h : SafeMarks (node :: nodes)) :
    SafeMarks nodes where
  distinct := h.distinct.of_cons
  named n hn := h.named n (List.mem_cons_of_mem _ hn)
  slurs n hn := h.slurs n (List.mem_cons_of_mem _ hn)

/-- No marked note among the nodes has the id. -/
def Away (nodes : List Node) (id : NoteAtomId) : Prop :=
  ∀ node ∈ nodes, isMarked node → node.getAttribute "id" ≠ some id

/-- The open ties and slurs start at ids that satisfy `Q`. -/
structure OpenStarts (Q : NoteAtomId → Prop) (s : ImportState) : Prop where
  ties : ∀ key start, s.tieStartByKey.get key = some start → Q start.atomId
  slurs : ∀ key start, s.slurStartByKey.get key = some start → Q start.atomId

theorem OpenStarts.mono {Q' : NoteAtomId → Prop} (h : OpenStarts Q s) (hQ : ∀ id, Q id → Q' id) :
    OpenStarts Q' s :=
  ⟨fun key start hs => hQ _ (h.ties key start hs), fun key start hs => hQ _ (h.slurs key start hs)⟩

theorem OpenStarts.congr {s' : ImportState} (h : OpenStarts Q s)
    (hties : s'.tieStartByKey = s.tieStartByKey) (hslurs : s'.slurStartByKey = s.slurStartByKey) :
    OpenStarts Q s' :=
  ⟨hties ▸ h.ties, hslurs ▸ h.slurs⟩

theorem getSourceId_of_named {id : String} (h : note.getAttribute "id" = some id) (hid : id ≠ "") :
    getSourceId note = some id := by
  simp [getSourceId, h, hid]

/-! ## Ties -/

theorem stopTie_ok (hopen : OpenStarts Q s) (hatom : ∀ id, Q id → id ≠ atom.id) (ref : NoteRef)
    (tieKey : String) (partId : PartId) (measureIndex : Nat) :
    ∃ s', stopTie s atom ref tieKey partId measureIndex = .ok s' ∧ OpenStarts Q s' := by
  cases hstart : s.tieStartByKey.get tieKey with
  | none =>
    refine ⟨s, ?_, hopen⟩
    rw [stopTie, hstart]
    rfl
  | some start =>
    have hne := hatom _ (hopen.ties tieKey start hstart)
    have hcreate : ∀ tieId, createTieRelationship tieId start.atomId atom.id =
        .ok ⟨tieId, start.atomId, atom.id⟩ := fun tieId => by
      rw [createTieRelationship, if_neg hne]
      rfl
    rw [stopTie, hstart]
    refine ⟨_, bind_eq_ok.mpr ⟨_, hcreate _, rfl⟩, fun key start' hs => ?_, hopen.slurs⟩
    by_cases hkey : key = tieKey
    · rw [hkey, JsMap.get_delete_self] at hs
      exact absurd hs (by simp)
    · rw [JsMap.get_delete_of_ne hkey] at hs
      exact hopen.ties key start' hs

theorem addTieRelationshipEvent_ok (hopen : OpenStarts Q s)
    (hatom : note.childrenNamed "tie" ≠ [] → ∀ id, Q id → id ≠ atom.id) (ref : NoteRef)
    (staffNumber : Int) (voiceId : VoiceId) (partId : PartId) (measureIndex : Nat) :
    ∃ s', addTieRelationshipEvent s atom ref staffNumber voiceId note partId measureIndex = .ok s' ∧
      (∀ key start, s'.tieStartByKey.get key = some start → Q start.atomId ∨
        (note.childrenNamed "tie" ≠ [] ∧ start.atomId = atom.id)) ∧
      (∀ key start, s'.slurStartByKey.get key = some start → Q start.atomId) := by
  have hne : ∀ type, hasTie type note → note.childrenNamed "tie" ≠ [] := by
    intro type h hnil
    rw [hasTie, hnil] at h
    exact absurd h (by simp)
  obtain ⟨s₁, h₁, hopen₁⟩ : ∃ s₁, (if hasTie "stop" note then
      stopTie s atom ref (getTieKey atom staffNumber voiceId) partId measureIndex
      else pure s) = .ok s₁ ∧ OpenStarts Q s₁ := by
    by_cases hstop : hasTie "stop" note
    · rw [if_pos hstop]
      exact stopTie_ok hopen (hatom (hne _ hstop)) ref _ partId measureIndex
    · exact ⟨s, by rw [if_neg hstop]; rfl, hopen⟩
  refine ⟨_, bind_eq_ok.mpr ⟨s₁, h₁, rfl⟩, ?_, ?_⟩
  · intro key start hs
    split_ifs at hs with hstart
    · by_cases hkey : key = getTieKey atom staffNumber voiceId
      · rw [hkey, startTie, JsMap.get_set_self] at hs
        obtain rfl := Option.some.inj hs
        exact .inr ⟨hne _ hstart, rfl⟩
      · rw [startTie, JsMap.get_set_of_ne hkey] at hs
        exact .inl (hopen₁.ties key start hs)
    · exact .inl (hopen₁.ties key start hs)
  · intro key start hs
    split_ifs at hs
    · exact hopen₁.slurs key start hs
    · exact hopen₁.slurs key start hs

/-! ## Slurs -/

/-- What the loop over the slurs of a note keeps: an open slur starts before
the note, or in it with a number that no later slur of the note has. -/
structure SlurLoop (Q : NoteAtomId → Prop) (atom : NoteAtom) (staffNumber : Int)
    (s : ImportState) (slurs : List Node) : Prop where
  starts : ∀ key start, s.slurStartByKey.get key = some start → Q start.atomId ∨
    (start.atomId = atom.id ∧ ∀ slur ∈ slurs, getSlurKey staffNumber slur ≠ key)
  distinct : (slurs.map getSlurNumber).Nodup

theorem getSlurKey_injective {staffNumber : Int} {a b : Node}
    (h : getSlurKey staffNumber a = getSlurKey staffNumber b) :
    getSlurNumber a = getSlurNumber b := by
  rw [getSlurKey, getSlurKey] at h
  have h' := congrArg String.toList h
  simp only [String.toList_append, List.append_cancel_left_eq] at h'
  exact numberToString_injective (String.toList_injective h')

theorem addSlur_ok {ref : NoteRef} {staffNumber : Int} {measureIndex : Nat}
    (hatom : ∀ id, Q id → id ≠ atom.id) (s : ImportState) (slur : Node) (slurs : List Node)
    (h : SlurLoop Q atom staffNumber s (slur :: slurs)) :
    ∃ s', addSlur atom ref staffNumber partId measureIndex s slur = .ok s' ∧
      SlurLoop Q atom staffNumber s' slurs ∧ s'.tieStartByKey = s.tieStartByKey := by
  have hdistinct := List.nodup_cons.mp h.distinct
  have hrest : ∀ {s' : ImportState},
      (∀ key start, s'.slurStartByKey.get key = some start →
        s.slurStartByKey.get key = some start) → SlurLoop Q atom staffNumber s' slurs :=
    fun hs => ⟨fun key start hget => (h.starts key start (hs key start hget)).imp_right
      fun hatom => ⟨hatom.1, fun sl hsl => hatom.2 sl (List.mem_cons_of_mem _ hsl)⟩, hdistinct.2⟩
  simp only [addSlur]
  split_ifs
  · cases hstart : s.slurStartByKey.get (getSlurKey staffNumber slur) with
    | none => exact ⟨s, rfl, hrest fun _ _ => id, rfl⟩
    | some start =>
      have hne : start.atomId ≠ atom.id := by
        rcases h.starts _ start hstart with hQ | hown
        · exact hatom _ hQ
        · exact absurd rfl (hown.2 slur (by simp))
      have hcreate : ∀ slurId, createSlurRelationship slurId start.atomId atom.id =
          .ok ⟨slurId, start.atomId, atom.id⟩ := fun slurId => by
        rw [createSlurRelationship, if_neg hne]
        rfl
      refine ⟨_, bind_eq_ok.mpr ⟨_, hcreate _, rfl⟩, hrest fun key start' hget => ?_, rfl⟩
      by_cases hkey : key = getSlurKey staffNumber slur
      · rw [hkey, JsMap.get_delete_self] at hget
        exact absurd hget (by simp)
      · rwa [JsMap.get_delete_of_ne hkey] at hget
  · refine ⟨_, rfl, ⟨fun key start hget => ?_, hdistinct.2⟩, rfl⟩
    by_cases hkey : key = getSlurKey staffNumber slur
    · rw [hkey, JsMap.get_set_self] at hget
      obtain rfl := Option.some.inj hget
      refine .inr ⟨rfl, fun sl hsl hsame => hdistinct.1 ?_⟩
      exact List.mem_map.mpr ⟨sl, hsl, getSlurKey_injective (hsame.trans hkey)⟩
    · rw [JsMap.get_set_of_ne hkey] at hget
      exact (h.starts key start hget).imp_right fun hown =>
        ⟨hown.1, fun sl hsl => hown.2 sl (List.mem_cons_of_mem _ hsl)⟩
  · exact ⟨s, rfl, hrest fun _ _ => id, rfl⟩

theorem addSlurRelationshipEvent_ok
    (hopen : ∀ key start, s.slurStartByKey.get key = some start → Q start.atomId)
    (hatom : slurNumbers note ≠ [] → ∀ id, Q id → id ≠ atom.id)
    (hdistinct : (slurNumbers note).Nodup) (ref : NoteRef) (staffNumber : Int) (partId : PartId)
    (measureIndex : Nat) :
    ∃ s', addSlurRelationshipEvent s atom ref staffNumber note partId measureIndex = .ok s' ∧
      s'.tieStartByKey = s.tieStartByKey ∧
      (∀ key start, s'.slurStartByKey.get key = some start → Q start.atomId ∨
        (slurNumbers note ≠ [] ∧ start.atomId = atom.id)) := by
  by_cases hnil : slurNumbers note = []
  · have hslurs : note.path ["notations", "slur"] = [] := List.map_eq_nil_iff.mp hnil
    refine ⟨s, ?_, rfl, fun key start hs => .inl (hopen key start hs)⟩
    rw [addSlurRelationshipEvent, hslurs]
    rfl
  · have hstep : ∀ s₁ slur slurs,
        (SlurLoop Q atom staffNumber s₁ (slur :: slurs) ∧ s₁.tieStartByKey = s.tieStartByKey) →
        ∃ s₂, addSlur atom ref staffNumber partId measureIndex s₁ slur = .ok s₂ ∧
          SlurLoop Q atom staffNumber s₂ slurs ∧ s₂.tieStartByKey = s.tieStartByKey := by
      intro s₁ slur slurs h
      obtain ⟨s₂, h₂, hloop, hties⟩ := addSlur_ok (hatom hnil) s₁ slur slurs h.1
      exact ⟨s₂, h₂, hloop, hties.trans h.2⟩
    obtain ⟨s', hs', hloop, hties⟩ := foldlM_ok
      (P := fun s₁ slurs => SlurLoop Q atom staffNumber s₁ slurs ∧
        s₁.tieStartByKey = s.tieStartByKey) hstep
      ⟨⟨fun key start hs => .inl (hopen key start hs), hdistinct⟩, rfl⟩
    exact ⟨s', hs', hties, fun key start hs => (hloop.starts key start hs).imp_right
      fun hown => ⟨hnil, hown.1⟩⟩

/-! ## Notes -/

theorem addBeamRelationshipEvent_ok (s : ImportState) (eventId : EventId) (voiceId : VoiceId)
    (note : Node) (partId : PartId) (measureIndex : Nat) :
    ∃ s', addBeamRelationshipEvent s eventId voiceId note partId measureIndex = .ok s' ∧
      s'.tieStartByKey = s.tieStartByKey ∧ s'.slurStartByKey = s.slurStartByKey := by
  unfold addBeamRelationshipEvent
  split
  · exact ⟨_, rfl, rfl, rfl⟩
  · split
    · exact ⟨_, rfl, rfl, rfl⟩
    · exact ⟨_, rfl, rfl, rfl⟩
  · split
    · exact ⟨_, rfl, rfl, rfl⟩
    · dsimp only
      split_ifs with hlength
      · exact ⟨_, rfl, rfl, rfl⟩
      · have hcreate : ∀ beamId eventIds, ¬ eventIds.length < 2 →
            createBeamRelationship beamId eventIds = .ok ⟨beamId, eventIds⟩ :=
          fun beamId eventIds h => by
            rw [createBeamRelationship, if_neg h]
            rfl
        exact ⟨_, bind_eq_ok.mpr ⟨_, hcreate _ _ hlength, rfl⟩, rfl, rfl⟩
  · exact ⟨_, rfl, rfl, rfl⟩

/-- The ties and the slurs of a note: an open start afterwards was open before
or is the note itself, if it is marked. -/
theorem addTiesAndSlurs_ok (hnote : note.hasTag "note") (hopen : OpenStarts Q s)
    (hatom : isMarked note → ∀ id, Q id → id ≠ atom.id) (hdistinct : (slurNumbers note).Nodup)
    (ref : NoteRef) (staffNumber : Int) (voiceId : VoiceId) (partId : PartId) (measureIndex : Nat) :
    ∃ s₁ s₂,
      addTieRelationshipEvent s atom ref staffNumber voiceId note partId measureIndex = .ok s₁ ∧
      addSlurRelationshipEvent s₁ atom ref staffNumber note partId measureIndex = .ok s₂ ∧
      OpenStarts (fun id => Q id ∨ (isMarked note ∧ id = atom.id)) s₂ := by
  have htieMarked : note.childrenNamed "tie" ≠ [] → isMarked note := fun h => by
    simp [isMarked, hnote, h]
  have hslurMarked : slurNumbers note ≠ [] → isMarked note := fun h => by
    simp [isMarked, hnote, h]
  obtain ⟨s₁, h₁, hties, hslurs⟩ := addTieRelationshipEvent_ok hopen
    (fun h => hatom (htieMarked h)) ref staffNumber voiceId partId measureIndex
  obtain ⟨s₂, h₂, hties₂, hslurs₂⟩ := addSlurRelationshipEvent_ok hslurs
    (fun h => hatom (hslurMarked h)) hdistinct ref staffNumber partId measureIndex
  refine ⟨s₁, s₂, h₁, h₂, fun key start hs => ?_, fun key start hs => ?_⟩
  · rw [hties₂] at hs
    exact (hties key start hs).imp_right fun h => ⟨htieMarked h.1, h.2⟩
  · exact (hslurs₂ key start hs).imp_right fun h => ⟨hslurMarked h.1, h.2⟩

theorem importChordMember_ok (hnote : note.hasTag "note") (hopen : OpenStarts Q m.state)
    {atom : Option NoteAtom} (hatom : ∀ a ∈ atom, isMarked note → ∀ id, Q id → id ≠ a.id)
    (hdistinct : (slurNumbers note).Nodup) (staffNumber : Int) (voiceId : VoiceId) :
    ∃ m', importChordMember context m note atom staffNumber voiceId = .ok m' ∧
      OpenStarts (fun id => Q id ∨ (isMarked note ∧ ∃ a ∈ atom, id = a.id)) m'.state := by
  have hkeep : OpenStarts (fun id => Q id ∨ (isMarked note ∧ ∃ a ∈ atom, id = a.id)) m.state :=
    hopen.mono fun _ => .inl
  unfold importChordMember
  split
  · rename_i previous a _
    obtain ⟨s₁, s₂, h₁, h₂, hopen₂⟩ := addTiesAndSlurs_ok hnote
      (hopen.congr rfl rfl : OpenStarts Q
        { m.state with events := m.state.events.modify previous (pushNote a) })
      (hatom a rfl) hdistinct
      ⟨previous, ((m.state.events[previous]?.map VoiceEvent.notes).getD []).length⟩ staffNumber
      voiceId context.partId context.measureIndex
    exact ⟨_, bind_eq_ok.mpr ⟨s₁, h₁, bind_eq_ok.mpr ⟨s₂, h₂, rfl⟩⟩,
      hopen₂.mono fun id h => h.imp_right fun h => ⟨h.1, a, rfl, h.2⟩⟩
  · exact ⟨m, rfl, hkeep⟩

theorem importRootNote_ok (hnote : note.hasTag "note") (hopen : OpenStarts Q m.state)
    {input : PitchedEvent} (hinput : input.notes ≠ [])
    (hatom : isMarked note → ∀ id, Q id → id ≠ atom.id) (hdistinct : (slurNumbers note).Nodup)
    (staffNumber durationTicks : Int) :
    ∃ m', importRootNote context m note input atom staffNumber durationTicks = .ok m' ∧
      OpenStarts (fun id => Q id ∨ (isMarked note ∧ id = atom.id)) m'.state := by
  have hcreate : createPitchedEvent input = .ok (.pitched input) := by
    rw [createPitchedEvent, if_neg hinput]
    rfl
  have hstem : OpenStarts Q (addStemNotationControl
      { m.state with events := m.state.events ++ [.pitched input] } input.id note) := by
    unfold addStemNotationControl
    split
    · exact hopen.congr rfl rfl
    · exact hopen.congr rfl rfl
  obtain ⟨s₁, s₂, h₁, h₂, hopen₂⟩ := addTiesAndSlurs_ok hnote hstem hatom hdistinct
    ⟨m.state.events.length, 0⟩ staffNumber input.voiceId context.partId context.measureIndex
  obtain ⟨s₃, h₃, hties₃, hslurs₃⟩ := addBeamRelationshipEvent_ok s₂ input.id input.voiceId note
    context.partId context.measureIndex
  exact ⟨_, bind_eq_ok.mpr ⟨_, hcreate, bind_eq_ok.mpr ⟨s₁, h₁, bind_eq_ok.mpr ⟨s₂, h₂,
    bind_eq_ok.mpr ⟨s₃, h₃, rfl⟩⟩⟩⟩, hopen₂.congr hties₃ hslurs₃⟩

theorem ensure_openStarts (h : OpenStarts Q s) (partId : PartId) (staffId : StaffId)
    (staffNumber voiceNumber : Int) :
    OpenStarts Q (ensureVoice (ensureStaff s partId staffNumber) partId staffId voiceNumber) := by
  have hstaff : OpenStarts Q (ensureStaff s partId staffNumber) := by
    rw [ensureStaff]
    split_ifs
    · exact h
    · exact h.congr rfl rfl
  rw [ensureVoice]
  split_ifs
  · exact hstaff
  · exact hstaff.congr rfl rfl

/-- The id of the atom of a marked note is the id of the note. -/
theorem toNoteAtom_id {fallbackId id : String} (hatom : toNoteAtom note fallbackId = some atom)
    (hid : note.getAttribute "id" = some id) (hne : id ≠ "") : atom.id = id := by
  obtain ⟨pitch, -, rfl⟩ := Option.map_eq_some_iff.mp hatom
  simp [getSourceId_of_named hid hne]

theorem importNote_ok (hnote : note.hasTag "note") (hsafe : SafeMarks (note :: nodes))
    (hopen : OpenStarts (Away (note :: nodes)) m.state) (nodeIndex : Nat) :
    ∃ m', importNote context m note nodeIndex = .ok m' ∧ OpenStarts (Away nodes) m'.state := by
  have haway : ∀ id, Away (note :: nodes) id → Away nodes id := fun id h n hn =>
    h n (List.mem_cons_of_mem _ hn)
  have hdistinct : (slurNumbers note).Nodup := by
    by_cases hmarked : isMarked note
    · exact hsafe.slurs note (by simp) hmarked
    · have hnil : note.childrenNamed "tie" = [] ∧ slurNumbers note = [] := by
        simpa [isMarked, hnote] using hmarked
      rw [hnil.2]
      exact List.nodup_nil
  -- the id of the note is neither open nor that of a marked note to come
  have hown : ∀ fallbackId atom, toNoteAtom note fallbackId = some atom → isMarked note →
      (∀ id, Away (note :: nodes) id → id ≠ atom.id) ∧ Away nodes atom.id := by
    intro fallbackId atom hatom hmarked
    obtain ⟨id, hid, hne⟩ := hsafe.named note (by simp) hmarked
    rw [toNoteAtom_id hatom hid hne]
    refine ⟨fun id' h heq => h note (by simp) hmarked (heq ▸ hid), fun n hn hm heq => ?_⟩
    exact (List.pairwise_cons.mp hsafe.distinct).1 n hn hmarked hm (hid.trans heq.symm)
  have hensure := ensure_openStarts hopen context.partId (readStaffId context note)
    (getPositiveInt (note.pathText ["staff"]) 1) (getPositiveInt (note.pathText ["voice"]) 1)
  simp only [importNote]
  split_ifs with hchord hrest
  · have hmember : ∀ (m₁ : MeasureState) fallbackId staffNumber voiceId,
        OpenStarts (Away (note :: nodes)) m₁.state →
        ∃ m', importChordMember context m₁ note (toNoteAtom note fallbackId) staffNumber voiceId =
          .ok m' ∧ OpenStarts (Away nodes) m'.state := by
      intro m₁ fallbackId staffNumber voiceId hopen₁
      obtain ⟨m', hm', hopen'⟩ := importChordMember_ok hnote hopen₁
        (fun a ha hmarked => (hown fallbackId a ha hmarked).1) hdistinct staffNumber voiceId
      refine ⟨m', hm', hopen'.mono fun id h => ?_⟩
      rcases h with h | ⟨hmarked, a, ha, rfl⟩
      · exact haway id h
      · exact (hown _ a ha hmarked).2
    exact hmember _ _ _ _ hensure
  · exact ⟨_, rfl, (hensure.mono haway).congr rfl rfl⟩
  · cases hatom : toNoteAtom note
      (toMeasureItemId context.partId context.measureIndex "-n" (nodeIndex + 1)) with
    | none => exact ⟨_, rfl, (hensure.mono haway).congr rfl rfl⟩
    | some atom =>
      have hroot : ∀ (m₁ : MeasureState) (input : PitchedEvent) staffNumber durationTicks,
          OpenStarts (Away (note :: nodes)) m₁.state → input.notes = [atom] →
          ∃ m', importRootNote context m₁ note input atom staffNumber durationTicks = .ok m' ∧
            OpenStarts (Away nodes) m'.state := by
        intro m₁ input staffNumber durationTicks hopen₁ hinput
        obtain ⟨m', hm', hopen'⟩ := importRootNote_ok hnote hopen₁
          (by rw [hinput]; exact List.cons_ne_nil atom [])
          (fun hmarked => (hown _ atom hatom hmarked).1) hdistinct staffNumber durationTicks
        refine ⟨m', hm', hopen'.mono fun id h => ?_⟩
        rcases h with h | ⟨hmarked, rfl⟩
        · exact haway id h
        · exact (hown _ atom hatom hmarked).2
      exact hroot _ _ _ _ hensure rfl

/-! ## Measures, parts and documents -/

theorem importNode_ok {node : Node × Nat} (hsafe : SafeMarks (node.1 :: nodes))
    (hopen : OpenStarts (Away (node.1 :: nodes)) m.state) :
    ∃ m', importNode context m node = .ok m' ∧ OpenStarts (Away nodes) m'.state := by
  have hkeep : OpenStarts (Away nodes) m.state :=
    hopen.mono fun id h n hn => h n (List.mem_cons_of_mem _ hn)
  rw [importNode]
  split_ifs with hforward hbackup hnote
  · exact ⟨_, rfl, hkeep⟩
  · exact ⟨_, rfl, hkeep⟩
  · exact importNote_ok hnote hsafe hopen node.2
  · exact ⟨m, rfl, hkeep⟩

theorem importNodes_ok {nodes : List (Node × Nat)} (hsafe : SafeMarks (nodes.map Prod.fst ++ later))
    (hopen : OpenStarts (Away (nodes.map Prod.fst ++ later)) m.state) :
    ∃ m', nodes.foldlM (importNode context) m = .ok m' ∧ OpenStarts (Away later) m'.state := by
  induction nodes generalizing m with
  | nil => exact ⟨m, rfl, hopen⟩
  | cons node nodes ih =>
    obtain ⟨m₁, h₁, hopen₁⟩ := importNode_ok hsafe hopen
    obtain ⟨m', h', hopen'⟩ := ih hsafe.of_cons hopen₁
    exact ⟨m', (List.foldlM_cons ..).trans (bind_eq_ok.mpr ⟨m₁, h₁, h'⟩), hopen'⟩

theorem SafeMarks.of_append {xs ys : List Node} (h : SafeMarks (xs ++ ys)) : SafeMarks ys where
  distinct := (List.pairwise_append.mp h.distinct).2.1
  named n hn := h.named n (List.mem_append_right _ hn)
  slurs n hn := h.slurs n (List.mem_append_right _ hn)

theorem importMeasure_ok {measureElement : Node × Nat}
    (hsafe : SafeMarks (measureElement.1.childNodes ++ later))
    (hopen : OpenStarts (Away (measureElement.1.childNodes ++ later)) s) :
    ∃ s', importMeasure partId s measureElement = .ok s' ∧ OpenStarts (Away later) s' := by
  have hentered : OpenStarts (Away (measureElement.1.childNodes ++ later))
      (setMeasure partId (getMeasureNumber measureElement.1 measureElement.2) s) :=
    hopen.congr rfl rfl
  rw [← List.zipIdx_map_fst 0 measureElement.1.childNodes] at hsafe hentered
  obtain ⟨m, hm, hopen'⟩ : ∃ m, measureElement.1.childNodes.zipIdx.foldlM
      (importNode (getMeasureContext partId measureElement))
      ⟨setMeasure partId (getMeasureNumber measureElement.1 measureElement.2) s, 0, .empty⟩ =
        .ok m ∧ OpenStarts (Away later) m.state := importNodes_ok hsafe hentered
  have hread := (importNodes_extends hm).2.events
  rw [List.zipIdx_map_fst] at hread
  -- the events of the measure are those read in it, and those are valid
  have hvalid : ∀ event ∈ m.state.events.drop s.events.length, event.Valid := by
    intro event he
    have hframe : event.frame ∈ (m.state.events.drop s.events.length).map VoiceEvent.frame :=
      List.mem_map_of_mem he
    rw [List.map_drop, hread, List.drop_append_of_le_length (by simp [setMeasure]),
      List.drop_of_length_le (by simp [setMeasure]), List.nil_append] at hframe
    exact readNodes_valid (getMeasureDivisions_pos _) _ _ _ hframe
  have hvoice : ∀ voice ∈ m.state.voices.values, ∃ voiceGaps,
      deriveTimelineGaps (m.state.events.drop s.events.length)
        ⟨(getMeasureContext partId measureElement).measureId, voice.homeStaffId, voice.id⟩
        (getMeasureDuration measureElement.1
          (getMeasureContext partId measureElement).divisions) = .ok voiceGaps := fun _ _ =>
    deriveTimelineGaps_ok hvalid _ (getMeasureDuration_valid _ _)
  obtain ⟨gaps, hgaps⟩ := mapM_ok hvoice
  exact ⟨_, bind_eq_ok.mpr ⟨m, hm, bind_eq_ok.mpr ⟨gaps, hgaps, rfl⟩⟩, hopen'.congr rfl rfl⟩

theorem importMeasures_ok {elements : List (Node × Nat)}
    (hsafe : SafeMarks (elements.flatMap (fun e => e.1.childNodes) ++ later))
    (hopen : OpenStarts (Away (elements.flatMap (fun e => e.1.childNodes) ++ later)) s) :
    ∃ s', elements.foldlM (importMeasure partId) s = .ok s' ∧ OpenStarts (Away later) s' := by
  induction elements generalizing s with
  | nil => exact ⟨s, rfl, hopen⟩
  | cons element elements ih =>
    rw [List.flatMap_cons, List.append_assoc] at hsafe hopen
    obtain ⟨s₁, h₁, hopen₁⟩ := importMeasure_ok hsafe hopen
    obtain ⟨s', h', hopen'⟩ := ih hsafe.of_append hopen₁
    exact ⟨s', (List.foldlM_cons ..).trans (bind_eq_ok.mpr ⟨s₁, h₁, h'⟩), hopen'⟩

/-- The nodes of the measures of a part. -/
def partNodes (partElement : Node) : List Node :=
  (partElement.childrenNamed "measure").flatMap childNodes

theorem flatMap_zipIdx_fst {α β : Type} (f : α → List β) (xs : List α) (start : Nat) :
    (xs.zipIdx start).flatMap (fun e => f e.1) = xs.flatMap f := by
  induction xs generalizing start with
  | nil => rfl
  | cons x xs ih => simp [List.zipIdx_cons, ih]

theorem importParts_ok {partNames : JsMap PartId String} {elements : List (Node × Nat)}
    (hsafe : SafeMarks (elements.flatMap fun e => partNodes e.1))
    (hopen : OpenStarts (Away (elements.flatMap fun e => partNodes e.1)) s) :
    ∃ s', elements.foldlM (importPart partNames) s = .ok s' := by
  induction elements generalizing s with
  | nil => exact ⟨s, rfl⟩
  | cons element elements ih =>
    rw [List.flatMap_cons, partNodes, ← flatMap_zipIdx_fst _ _ 0] at hsafe hopen
    have hentered : ∀ part, OpenStarts (Away ((element.1.childrenNamed "measure").zipIdx.flatMap
        (fun e => e.1.childNodes) ++ elements.flatMap fun e => partNodes e.1))
        { s with parts := s.parts ++ [part] } := fun _ => hopen.congr rfl rfl
    obtain ⟨s₁, h₁, hopen₁⟩ := importMeasures_ok (s := { s with parts := s.parts ++ [
      ⟨getPartId element.1 element.2, (partNames.get (getPartId element.1 element.2)).getD
        ("Part " ++ numberToString (element.2 + 1))⟩] }) hsafe (hentered _)
    obtain ⟨s', h'⟩ := ih hsafe.of_append hopen₁
    exact ⟨s', (List.foldlM_cons ..).trans (bind_eq_ok.mpr ⟨s₁, h₁, h'⟩)⟩

end MusicXmlImporter

open MusicXmlImporter

/-- A text with safe marks is imported. -/
theorem importMusicXmlToEditorDomain_ok {xml : Node}
    (hparse : xml.documentQuerySelectorAll ["parsererror"] = [])
    (hsafe : SafeMarks ((getPartElements xml).flatMap partNodes)) :
    ∃ result, importMusicXmlToEditorDomain xml = .ok result := by
  rw [← flatMap_zipIdx_fst _ _ 0] at hsafe
  have hopen : OpenStarts (Away ((getPartElements xml).zipIdx.flatMap fun e => partNodes e.1))
      .initial :=
    ⟨fun key start h => absurd h (by simp [ImportState.initial]),
      fun key start h => absurd h (by simp [ImportState.initial])⟩
  obtain ⟨s, hs⟩ : ∃ s, (getPartElements xml).zipIdx.foldlM (importPart (getPartNames xml))
      .initial = .ok s := importParts_ok hsafe hopen
  have hxml : parseMusicXml xml = .ok xml := by
    rw [parseMusicXml, hparse, if_neg (by simp)]
    rfl
  exact ⟨_, bind_eq_ok.mpr ⟨xml, hxml, bind_eq_ok.mpr ⟨s, hs, rfl⟩⟩⟩

end NoteVerse.Editor
