import NoteVerse.Backend.ReviewSteps

/-!
# An import is confirmed once

The check that an import is in review is made before the lock on it is given
away. What keeps a second score out is the constraint on the originating
import, and from then on the link of the import: a confirm that reads it
answers with the score there is. All steps but the transaction of a confirm
leave the scores and the imports as they are (`same_or_commits`).
-/

namespace NoteVerse.Backend

open Table Transition

namespace ReviewWorld

variable {service : ReviewService} {start world world' : ReviewWorld} {request : ReviewRequest}
  {phase phase' : ReviewPhase}

/-! ## The invariant is kept -/

variable {job : ReviewJob} {requestId : Nat} {action : ReviewAction}

theorem ownedJob_cases (h : ownedJob world request = .ok job) :
    job ∈ world.jobs ∧ job.jobUuid = request.jobUuid ∧ job.userId = request.userId := by
  unfold ownedJob at h
  split at h
  · cases h
  · rename_i job' hjob
    split_ifs at h with huser
    cases h
    exact ⟨find_mem hjob, find_key hjob, not_not.mp huser⟩

/-- What a confirm reads of its draft. -/
theorem readConfirm_draft {title : Option String} {scoreUuid revisionUuid : String}
    {draft : ConfirmDraft} (h : service.readConfirm world request title scoreUuid revisionUuid =
      .ok (.draft draft)) :
    draft.content = request.content ∧ draft.contentHash = service.sha256 request.content ∧
      draft.scoreUuid = scoreUuid ∧
      ∃ job ∈ world.jobs, job.jobUuid = request.jobUuid ∧ job.id = draft.jobId := by
  unfold ReviewService.readConfirm at h
  split at h
  · cases h
  rename_i job hjob
  split at h
  · cases h
  split_ifs at h
  cases h
  obtain ⟨hmem, huuid, -⟩ := ownedJob_cases hjob
  exact ⟨rfl, rfl, rfl, job, hmem, huuid, rfl⟩

section PhaseStep

variable {requestId : Nat} {after : ReviewWorld}

theorem PhaseStep.accounted (ha : Accounted world.usage)
    (h : PhaseStep service world request phase after phase') : Accounted after.usage := by
  cases h with
  | reserve _ _ _ _ ha => exact ha
  | commit _ hc => rwa [hc.usage]
  | release _ ha => exact ha
  | settle ha => exact ha
  | charge ha => exact ha
  | _ => exact ha

theorem PhaseStep.held (hv : Valid service start world)
    (hr : world.requests requestId = some (request, phase))
    (h : PhaseStep service world request phase after phase') :
    Held start.usage.statusOf after.usage.statusOf
      (Function.update world.holds requestId phase'.reservation) := by
  have hholds : world.holds requestId = phase.reservation := by rw [holds, hr]; rfl
  have hkeep := hv.held.keep (i := requestId)
  rw [hholds] at hkeep
  cases h with
  | reserve hconfirm hread hfresh hnew ha hstatus =>
    rw [hstatus]
    exact hv.held.reserve hholds hnew
  | fail hreservation => rwa [hreservation] at hkeep
  | commit hdraft hc =>
    rw [hc.usage]
    exact hkeep
  | release ho ha hstatus =>
    rw [hstatus]
    exact hv.held.settle hholds (by decide)
  | settle ha hstatus =>
    rw [hstatus]
    have hsettled := hv.held.settle hholds (show (.committed : StorageUsageReservationStatus) ≠
      .reserved by decide)
    have hforgot := hsettled.forget (Function.update_self _ _ _) (by decide)
    rwa [Function.update_idem] at hforgot
  | charge ha hstatus =>
    rcases hstatus with hstatus | ⟨uuid, hnew, hstatus⟩
    · rw [hstatus]
      exact hkeep
    · rw [hstatus]
      exact hkeep.other hnew (by decide)
  | _ => exact hkeep

/-- The import whose artifacts are cleaned up has its score. -/
theorem Valid.cleanup_linked (hv : Valid service start world) {made : Option ConfirmedScore}
    {todo : List ReviewFollowUp} {answer : String} {job : ReviewJob}
    (hr : world.requests requestId = some (request, .finishing made todo answer))
    (hconfirm : request.IsConfirm) (hjob : ownedJob world request = .ok job) :
    job.scoreId ≠ none := by
  obtain ⟨hmem, huuid, -⟩ := ownedJob_cases hjob
  obtain ⟨job', hmem', huuid', score, -, hlinked, -⟩ :=
    (hv.requests _ _ _ hr).answer answer rfl hconfirm
  rw [List.inj_on_of_nodup_map hv.tables.jobUuids hmem hmem' (huuid.trans huuid'.symm), hlinked]
  exact Option.some_ne_none _

theorem PhaseStep.tables (hv : Valid service start world)
    (hr : world.requests requestId = some (request, phase))
    (h : PhaseStep service world request phase after phase') : TablesOk start after := by
  cases h with
  | commit hdraft hc => exact hv.tables.commit hc
  | update hupdate hkeys =>
    exact { hv.tables with
      uploads := { hv.tables.uploads with }
      artifactKeys := hkeys }
  | @cleanup made todo more answer job hconfirm hjob hmore =>
    have hlinked := hv.cleanup_linked hr hconfirm hjob
    refine { hv.tables with
      uploads := hv.tables.uploads.cleanupBinaryArtifacts job.id
      links := fun job' hjob' hnone => ?_
      artifactKeys := fun artifact hartifact =>
        hv.tables.artifactKeys artifact (List.mem_of_mem_filter hartifact)
      blobKeys := fun blob hblob => hv.tables.blobKeys blob (List.mem_of_mem_filter hblob) }
    have hne : job'.id ≠ job.id := fun e => by
      rw [List.inj_on_of_nodup_map hv.tables.jobIds hjob' (ownedJob_cases hjob).1 e] at hnone
      exact hlinked hnone
    rw [← hv.tables.links job' hjob' hnone]
    show (world.uploads.jobUploads.filter (·.jobId ≠ job.id)).filter (·.jobId = job'.id) = _
    rw [List.filter_filter]
    refine List.filter_congr fun link _ => ?_
    by_cases hlink : link.jobId = job'.id
    · simp [hlink, hne]
    · simp [hlink]
  | _ => exact { hv.tables with }

theorem PhaseStep.extends (hv : Valid service start world)
    (h : PhaseStep service world request phase after phase') : world.Extends after := by
  cases h with
  | commit hdraft hc => exact hv.commit_extends hc
  | reserve => exact ⟨fun _ h => List.mem_cons_of_mem _ h, fun _ h => h,
      fun job h => ⟨job, h, rfl, rfl, fun _ h => h⟩⟩
  | _ => exact ⟨fun _ h => h, fun _ h => h, fun job h => ⟨job, h, rfl, rfl, fun _ h => h⟩⟩

/-- The documents of other requests stay. -/
theorem PhaseStep.objects (h : PhaseStep service world request phase after phase')
    {key : StorageKey} (hkey : key.IsSource)
    (hne : ∀ draft, phase.draft = some draft → key ≠ draft.key) :
    after.objects key = world.objects key := by
  cases h with
  | raise ho => exact ho key hkey
  | put => exact Function.update_of_ne (hne _ rfl) _ _
  | fail _ _ _ ho => exact ho key hkey
  | commit hdraft hc => exact hc.objects key hkey
  | release ho => exact ho key (hne _ rfl)
  | update _ _ ho => exact ho key hkey
  | delete ho => exact ho key hkey
  | _ => rfl

/-- What a request has made it keeps. -/
theorem PhaseStep.made (h : PhaseStep service world request phase after phase')
    {made : ConfirmedScore} (hm : phase.made = some made) : phase'.made = some made := by
  cases h with
  | settle => exact hm
  | unsettled => exact hm
  | charge => exact hm
  | delete => exact hm
  | cleanup => exact hm
  | interrupt => exact hm
  | answer => exact hm
  | fail _ _ hnone =>
    rw [hnone] at hm
    cases hm
  | _ => cases hm

theorem PhaseStep.object (h : PhaseStep service world request phase after phase')
    {draft : ConfirmDraft} (hd : phase.storedDraft = some draft) :
    after.objects draft.key = world.objects draft.key := by
  cases h with
  | put => cases hd
  | fail _ _ _ ho => exact ho _ draft.isSource
  | commit _ hc => exact hc.objects _ draft.isSource
  | release => cases hd
  | delete ho => exact ho _ draft.isSource
  | raise ho => exact ho _ draft.isSource
  | update _ _ ho => exact ho _ draft.isSource
  | _ => rfl

theorem existing_answer {job : ReviewJob} {score : Score}
    (hjob : ownedJob world request = .ok job) (hscore : linkedScore world job = some score) :
    ∃ job ∈ world.jobs, job.jobUuid = request.jobUuid ∧
      ∃ score' ∈ world.tables.scores, job.scoreId = some score'.id ∧
        score'.scoreUuid = score.scoreUuid := by
  obtain ⟨hmem, huuid, -⟩ := ownedJob_cases hjob
  obtain ⟨scoreId, hlinked, hfind⟩ := Option.bind_eq_some_iff.mp hscore
  refine ⟨job, hmem, huuid, score, find_mem hfind, ?_, rfl⟩
  rw [hlinked, find_key hfind]

/-- The answer of a confirm that has made a score. -/
theorem Valid.made_answer (hv : Valid service start world) (hok : RequestOk service world request
    phase) {made : ConfirmedScore} (hm : phase.made = some made)
    (hd : phase.draft = some made.draft) :
    ∃ job ∈ world.jobs, job.jobUuid = request.jobUuid ∧
      ∃ score ∈ world.tables.scores, job.scoreId = some score.id ∧
        score.scoreUuid = made.draft.scoreUuid := by
  obtain ⟨hscore, job, hjob, hid, hlinked⟩ := hok.made made hm
  obtain ⟨job', hjob', huuid, hid'⟩ := (hok.draft _ hd).job
  rw [List.inj_on_of_nodup_map hv.tables.jobIds hjob hjob' (hid.trans hid'.symm)] at hlinked
  exact ⟨job', hjob', huuid, made.score, hscore, hlinked, rfl⟩

/-- A request that holds nothing. -/
theorem RequestOk.of_idle (hd : phase.draft = none) (hs : phase.storedDraft = none)
    (hm : phase.made = none) (htodo : ∀ followUp ∈ phase.todo, followUp.Ok request)
    (ha : ∀ answer, phase.answer = some answer → request.IsConfirm →
      ∃ job ∈ world.jobs, job.jobUuid = request.jobUuid ∧
        ∃ score ∈ world.tables.scores, job.scoreId = some score.id ∧ score.scoreUuid = answer) :
    RequestOk service world request phase where
  draft draft h := by rw [hd] at h; cases h
  object draft h := by rw [hs] at h; cases h
  todo := htodo
  made made h := by rw [hm] at h; cases h
  answer := ha

/-- A request on its way to the transaction. -/
theorem RequestOk.of_working
    (hd : ∀ draft, phase.draft = some draft → DraftOf service world request draft)
    (ho : ∀ draft, phase.storedDraft = some draft →
      world.objects draft.key = some draft.content)
    (hm : phase.made = none) (htodo : phase.todo = []) (ha : phase.answer = none) :
    RequestOk service world request phase where
  draft := hd
  object := ho
  todo followUp h := by rw [htodo] at h; exact absurd h List.not_mem_nil
  made made h := by rw [hm] at h; cases h
  answer answer h := by rw [ha] at h; cases h

/-- A request that goes on with what it has. -/
theorem RequestOk.of_same (h : RequestOk service world request phase)
    (hd : phase'.draft = phase.draft) (hs : phase'.storedDraft = phase.storedDraft)
    (hm : phase'.made = phase.made) (htodo : ∀ followUp ∈ phase'.todo, followUp.Ok request)
    (ha : phase'.answer = none ∨ phase'.answer = phase.answer) :
    RequestOk service world request phase' where
  draft := hd ▸ h.draft
  object := hs ▸ h.object
  todo := htodo
  made := hm ▸ h.made
  answer answer hanswer := by
    rcases ha with ha | ha
    · rw [ha] at hanswer
      cases hanswer
    · exact h.answer answer (ha ▸ hanswer)

/-- A transaction gives its request the score that it has made. -/
theorem Valid.commit_ok (hv : Valid service start world) {draft : ConfirmDraft}
    {reservationId : String} {made : ConfirmedScore} {todo : List ReviewFollowUp}
    (hok : RequestOk service world request (.stored draft reservationId))
    (hdraft : made.draft = draft) (hc : Commits world made after)
    (htodo : ∀ followUp ∈ todo, followUp.Ok request) :
    RequestOk service after request (.committed made reservationId todo) := by
  subst hdraft
  have hkept : RequestOk service after request (.stored made.draft reservationId) :=
    hok.mono (hv.commit_extends hc) fun draft _ => hc.objects _ draft.isSource
  obtain ⟨job, hjob, huuid, hid⟩ := (hok.draft made.draft rfl).job
  refine ⟨hkept.draft, hkept.object, htodo, fun made' he => ?_, nofun⟩
  cases he
  rw [hv.tables.scores_commit hc, hc.jobs]
  refine ⟨List.mem_append_right _ (List.mem_singleton_self _), _, List.mem_map_of_mem hjob, ?_⟩
  rw [if_pos hid]
  exact ⟨hid, rfl⟩

theorem PhaseStep.ok (hv : Valid service start world)
    (hok : RequestOk service world request phase)
    (h : PhaseStep service world request phase after phase') :
    RequestOk service after request phase' := by
  have hkept : RequestOk service after request phase :=
    hok.mono (h.extends hv) fun draft hd => h.object hd
  have hnil : ∀ followUp ∈ ([] : List ReviewFollowUp), followUp.Ok request :=
    List.forall_mem_nil _
  cases h with
  | raise => exact .of_working (fun _ e => by cases e) (fun _ e => by cases e) rfl rfl rfl
  | release => exact .of_working (fun _ e => by cases e) (fun _ e => by cases e) rfl rfl rfl
  | existing hconfirm hjob hscore =>
    refine .of_idle rfl rfl rfl (fun followUp hf => ?_) fun answer he _ => ?_
    · rw [List.mem_singleton.mp hf]
      exact hconfirm
    · cases he
      exact existing_answer hjob hscore
  | reserve hconfirm hread hfresh =>
    obtain ⟨hcontent, hhash, huuid, hjob⟩ := readConfirm_draft hread
    refine .of_working (fun draft he => ?_) (fun _ e => by cases e) rfl rfl rfl
    cases he
    exact ⟨hconfirm, hcontent, hhash, huuid ▸ List.mem_cons_self, hjob⟩
  | put =>
    refine .of_working hkept.draft (fun draft he => ?_) rfl rfl rfl
    cases he
    exact Function.update_self _ _ _
  | fail hr hd =>
    exact .of_working (fun draft he => hkept.draft draft (hd.trans he)) (fun _ e => by cases e)
      rfl rfl rfl
  | commit hdraft hc htodo => exact hv.commit_ok hok hdraft hc htodo
  | settle =>
    refine ⟨hkept.draft, hkept.object, hkept.todo, hkept.made, fun answer he _ => ?_⟩
    cases he
    exact hv.made_answer hok rfl rfl
  | unsettled => exact hkept.of_same rfl rfl rfl hnil (.inl rfl)
  | update hupdate _ _ htodo =>
    exact .of_idle rfl rfl rfl htodo fun _ _ hconfirm => absurd hconfirm hupdate
  | charge =>
    exact hkept.of_same rfl rfl rfl (fun f hf => hkept.todo f (List.mem_cons_of_mem _ hf))
      (.inr rfl)
  | delete =>
    exact hkept.of_same rfl rfl rfl (fun f hf => hkept.todo f (List.mem_cons_of_mem _ hf))
      (.inr rfl)
  | cleanup hconfirm hjob hmore =>
    refine hkept.of_same rfl rfl rfl (fun f hf => ?_) (.inr rfl)
    rcases List.mem_append.mp hf with hf | hf
    · exact hmore f hf
    · exact hkept.todo f (List.mem_cons_of_mem _ hf)
  | interrupt => exact hkept.of_same rfl rfl rfl hnil (.inl rfl)
  | answer => exact hkept.of_same rfl rfl rfl hnil (.inr rfl)

/-- A step is the transaction of a confirm, or leaves the scores as they are. -/
theorem PhaseStep.same_or_commits (h : PhaseStep service world request phase after phase') :
    SameScores world after ∧ phase'.made = phase.made ∨
      ∃ made, Commits world made after ∧ phase.made = none ∧ phase'.made = some made ∧
        phase.draft = some made.draft := by
  cases h with
  | commit hdraft hc => exact .inr ⟨_, hc, rfl, rfl, congrArg some hdraft.symm⟩
  | fail _ _ hm => exact .inl ⟨⟨rfl, rfl, rfl, rfl⟩, hm.symm⟩
  | _ => exact .inl ⟨⟨rfl, rfl, rfl, rfl⟩, rfl⟩

theorem PhaseStep.draft (h : PhaseStep service world request phase after phase')
    {draft : ConfirmDraft} (hd : phase'.draft = some draft) :
    phase.draft = some draft ∨ draft.scoreUuid ∉ world.issued := by
  cases h with
  | raise => cases hd
  | existing => cases hd
  | reserve hconfirm hread hfresh =>
    cases hd
    rw [(readConfirm_draft hread).2.2.1]
    exact .inr hfresh
  | fail _ hdraft =>
    cases hd
    exact .inl hdraft
  | commit hdraft =>
    cases hd
    exact .inl (congrArg some hdraft.symm)
  | release => cases hd
  | update => cases hd
  | _ => exact .inl hd

end PhaseStep

section Step

variable {requestId : Nat} {after : ReviewWorld}

variable {request' : ReviewRequest} {phase'' : ReviewPhase}

theorem RequestOk.setPhase (h : RequestOk service world request phase) (phase'' : ReviewPhase) :
    RequestOk service (world.setPhase requestId request' phase'') request phase :=
  { h with draft := fun draft hdraft => { h.draft draft hdraft with } }

theorem Confirmed.same {job : ReviewJob} {made : ConfirmedScore}
    (h : Confirmed start world job made) (hs : SameScores world world') :
    Confirmed start world' job made := by
  obtain ⟨hid, hscore, hrevisions, hsources, hinputs⟩ := h
  rw [← hs.tables] at hscore hrevisions hsources
  rw [← hs.inputAssets] at hinputs
  exact ⟨hid, hscore, hrevisions, hsources, hinputs⟩

theorem draft_of_storedDraft {draft : ConfirmDraft} (h : phase.storedDraft = some draft) :
    phase.draft = some draft := by
  cases phase with
  | reserved => cases h
  | failing => cases h
  | _ => exact h

/-- What a request has made it keeps, and so do the others. -/
theorem made_setPhase (phase' : ReviewPhase) (hr : world.requests requestId = some (request, phase))
    (hrequests : after.requests = world.requests)
    (hmade : ∀ made, phase.made = some made → phase'.made = some made) {i : Nat}
    {made : ConfirmedScore} (hi : world.requests i = some (request', phase''))
    (hm : phase''.made = some made) :
    ∃ request' phase'', (after.setPhase requestId request phase').requests i =
      some (request', phase'') ∧ phase''.made = some made := by
  by_cases hid : i = requestId
  · subst hid
    rw [hr] at hi
    cases hi
    exact ⟨request, phase', Function.update_self _ _ _, hmade made hm⟩
  · refine ⟨request', phase'', ?_, hm⟩
    show Function.update after.requests requestId _ i = _
    rw [Function.update_of_ne hid, hrequests, hi]

/-- A transaction links its import, and leaves the others as they are. -/
theorem Valid.jobs_commit (hv : Valid service start world)
    (hr : world.requests requestId = some (request, phase)) {made : ConfirmedScore}
    (hc : Commits world made after) (hnone : phase.made = none)
    (hmade : phase'.made = some made) :
    ∀ job ∈ after.jobs, JobOk start (after.setPhase requestId request phase') job := by
  intro job hjob
  rw [hc.jobs] at hjob
  rcases mem_update hjob with ⟨hjob, hne⟩ | ⟨job₀, hjob₀, hid, rfl⟩
  · have hok := hv.jobs job hjob
    constructor
    · intro hunlinked
      refine ⟨(hok.unlinked hunlinked).1, fun score hscore => ?_⟩
      have hscore : score ∈ world.tables.scores ++ [made.score] :=
        (hv.tables.scores_commit hc) ▸ hscore
      rcases List.mem_append.mp hscore with hscore | hscore
      · exact (hok.unlinked hunlinked).2 score hscore
      · rw [List.mem_singleton.mp hscore]
        exact fun e => hne (Option.some.inj e).symm
    · intro scoreId hlinked
      obtain ⟨hstate, i, request', phase'', made', hi, hm, hid, hconfirmed⟩ :=
        hok.linked scoreId hlinked
      obtain ⟨request₁, phase₁, hnow, hm₁⟩ := made_setPhase phase' hr hc.requests
        (fun made' h => by rw [hnone] at h; cases h) hi hm
      exact ⟨hstate, i, request₁, phase₁, made', hnow, hm₁, hid,
        { hconfirmed.commit hv.tables hc with }⟩
  · have hunlinked := hv.commit_unlinked hc hjob₀ hid
    constructor
    · intro h
      cases h
    intro scoreId hlinked
    cases hlinked
    have hconfirmed : Confirmed start after job₀ made :=
      hc.confirmed hv.tables hid.symm (hv.tables.links job₀ hjob₀ hunlinked)
    exact ⟨rfl, requestId, request, phase', made, Function.update_self _ _ _, hmade, rfl,
      { hconfirmed with }⟩

theorem PhaseStep.jobs (hv : Valid service start world)
    (hr : world.requests requestId = some (request, phase))
    (hrequests : after.requests = world.requests)
    (h : PhaseStep service world request phase after phase') :
    ∀ job ∈ after.jobs, JobOk start (after.setPhase requestId request phase') job := by
  rcases h.same_or_commits with ⟨hs, hmade⟩ | ⟨made, hc, hnone, hmade, -⟩
  · intro job hjob
    rw [hs.jobs] at hjob
    have hok := hv.jobs job hjob
    constructor
    · intro hunlinked
      refine ⟨(hok.unlinked hunlinked).1, fun score hscore => ?_⟩
      exact (hok.unlinked hunlinked).2 score (hs.tables ▸ hscore)
    · intro scoreId hlinked
      obtain ⟨hstate, i, request', phase'', made, hi, hm, hid, hconfirmed⟩ :=
        hok.linked scoreId hlinked
      obtain ⟨request₁, phase₁, hnow, hm₁⟩ :=
        made_setPhase phase' hr hrequests (fun _ h => hmade.trans h) hi hm
      exact ⟨hstate, i, request₁, phase₁, made, hnow, hm₁, hid, { hconfirmed.same hs with }⟩
  · exact hv.jobs_commit hr hc hnone hmade

theorem PhaseStep.requests (hv : Valid service start world)
    (hr : world.requests requestId = some (request, phase))
    (hrequests : after.requests = world.requests)
    (h : PhaseStep service world request phase after phase') {i : Nat}
    (hi : (after.setPhase requestId request phase').requests i = some (request', phase'')) :
    RequestOk service (after.setPhase requestId request phase') request' phase'' := by
  have hi : Function.update after.requests requestId (some (request, phase')) i =
    some (request', phase'') := hi
  rw [Function.update_apply] at hi
  split_ifs at hi with hid
  · cases hi
    exact (h.ok hv (hv.requests _ _ _ hr)).setPhase phase'
  · rw [hrequests] at hi
    have hok := hv.requests _ _ _ hi
    refine (hok.mono (h.extends hv) fun draft hd => ?_).setPhase phase'
    refine h.objects draft.isSource fun draft' hd' => ConfirmDraft.key_ne fun e => hid ?_
    exact hv.alone _ _ _ _ _ _ _ _ hi hr (draft_of_storedDraft hd) hd' e

/-- The uuid that a request draws is new, so no other request has it. -/
theorem PhaseStep.alone (hv : Valid service start world)
    (hr : world.requests requestId = some (request, phase))
    (h : PhaseStep service world request phase after phase') {i : Nat}
    (hi : world.requests i = some (request', phase'')) (hne : i ≠ requestId)
    {draft draft' : ConfirmDraft} (hd : phase'.draft = some draft)
    (hd' : phase''.draft = some draft') : draft.scoreUuid ≠ draft'.scoreUuid := by
  intro e
  rcases h.draft hd with hold | hfresh
  · exact hne (hv.alone _ _ _ _ _ _ _ _ hi hr hd' hold e.symm)
  · rw [e] at hfresh
    exact hfresh ((hv.requests _ _ _ hi).draft draft' hd').issued

theorem Valid.submit (hv : Valid service start world)
    (hnone : world.requests requestId = none) :
    Valid service start (world.setPhase requestId request .received) := by
  have hother : ∀ i request' phase'', (world.setPhase requestId request .received).requests i =
      some (request', phase'') → phase''.draft = none ∧ phase'' = .received ∨
      world.requests i = some (request', phase'') := by
    intro i request' phase'' hi
    have hi : Function.update world.requests requestId (some (request, .received)) i =
      some (request', phase'') := hi
    rw [Function.update_apply] at hi
    split_ifs at hi
    · cases hi
      exact .inl ⟨rfl, rfl⟩
    · exact .inr hi
  refine ⟨hv.accounted, ?_, { hv.tables with }, fun job hjob => ?_, fun i request' phase'' hi => ?_,
    fun i j request₁ request₂ phase₁ phase₂ draft₁ draft₂ hi hj hd₁ hd₂ e => ?_⟩
  · have hholds : world.holds requestId = none := by rw [holds, hnone]; rfl
    have hkeep := hv.held.keep (i := requestId)
    rw [hholds] at hkeep
    rw [holds_update rfl]
    exact hkeep
  · have hok := hv.jobs job hjob
    refine ⟨hok.unlinked, fun scoreId hlinked => ?_⟩
    obtain ⟨hstate, i, request', phase'', made, hi, hm, hid, hconfirmed⟩ :=
      hok.linked scoreId hlinked
    refine ⟨hstate, i, request', phase'', made, ?_, hm, hid, { hconfirmed with }⟩
    show Function.update world.requests requestId _ i = _
    rw [Function.update_of_ne, hi]
    rintro rfl
    rw [hnone] at hi
    cases hi
  · rcases hother i request' phase'' hi with ⟨-, rfl⟩ | hi
    · exact .of_working (fun _ e => by cases e) (fun _ e => by cases e) rfl rfl rfl
    · exact (hv.requests i request' phase'' hi).setPhase .received
  · rcases hother i _ _ hi with ⟨hnil, -⟩ | hi
    · rw [hnil] at hd₁
      cases hd₁
    rcases hother j _ _ hj with ⟨hnil, -⟩ | hj
    · rw [hnil] at hd₂
      cases hd₂
    exact hv.alone i j _ _ _ _ _ _ hi hj hd₁ hd₂ e

theorem Valid.advance (hv : Valid service start world)
    (hr : world.requests requestId = some (request, phase))
    (h : Advances service world requestId request phase world') : Valid service start world' := by
  obtain ⟨after, phase', hstep, hrequests, rfl⟩ := h
  have haccounted : Accounted after.usage := hstep.accounted hv.accounted
  refine ⟨haccounted, ?_, { hstep.tables hv hr with },
    hstep.jobs hv hr hrequests, fun i request' phase'' hi => hstep.requests hv hr hrequests hi,
    fun i j request₁ request₂ phase₁ phase₂ draft₁ draft₂ hi hj hd₁ hd₂ e => ?_⟩
  · have hholds : (after.setPhase requestId request phase').holds =
        Function.update world.holds requestId phase'.reservation :=
      holds_update (congrArg (Function.update · _ _) hrequests)
    rw [hholds]
    have hheld := hstep.held hv hr
    exact hheld
  · have hi : Function.update after.requests requestId (some (request, phase')) i =
      some (request₁, phase₁) := hi
    have hj : Function.update after.requests requestId (some (request, phase')) j =
      some (request₂, phase₂) := hj
    rw [hrequests, Function.update_apply] at hi hj
    split_ifs at hi hj with hid hjd hjd
    · rw [hid, hjd]
    · cases hi
      exact absurd e (hstep.alone hv hr hj hjd hd₁ hd₂)
    · cases hj
      exact absurd e.symm (hstep.alone hv hr hi hid hd₂ hd₁)
    · exact hv.alone i j _ _ _ _ _ _ hi hj hd₁ hd₂ e

theorem Valid.step {action : ReviewAction} (hv : Valid service start world)
    (hs : Step service world action world') : Valid service start world' := by
  obtain ⟨request, hnone, rfl⟩ | ⟨request, phase, hr, hadvances⟩ := step_cases hv hs
  · exact hv.submit hnone
  · exact hv.advance hr hadvances

end Step

/-- Imports that no score originates from, and no request so far. -/
structure Initial (world : ReviewWorld) : Prop where
  usage : Reachable EmptyAccounts StorageOperation.Step world.usage
  requests : ∀ requestId, world.requests requestId = none
  tables : TablesOk world world
  jobs : ∀ job ∈ world.jobs, job.scoreId = none ∧ job.state ≠ .confirmed ∧
    ∀ score ∈ world.tables.scores, score.originatingJobId ≠ some job.id

theorem Initial.valid (h : Initial start) : Valid service start start := by
  have hnone : ∀ i request phase, start.requests i ≠ some (request, phase) := by
    intro i request phase hi
    rw [h.requests] at hi
    cases hi
  refine ⟨StorageOperation.accounted_of_reachable h.usage, .of_start fun i => ?_, h.tables, fun job hjob => ?_,
    fun i request phase hi => absurd hi (hnone i request phase),
    fun i j request request' phase phase' draft draft' hi => absurd hi (hnone i request phase)⟩
  · rw [holds, h.requests]
    rfl
  · obtain ⟨hunlinked, hstate, hscores⟩ := h.jobs job hjob
    refine ⟨fun _ => ⟨hstate, hscores⟩, fun scoreId hlinked => ?_⟩
    rw [hunlinked] at hlinked
    cases hlinked

theorem valid_of_reachable (hstart : start.Initial)
    (h : Reachable (· = start) (Step service) world) : Valid service start world := by
  refine h.invariant (fun world e => ?_) fun _ _ _ hv hs => hv.step hs
  rw [e]
  exact hstart.valid

/-! ## The claim about runs -/

/-- The scores that originate from an import. -/
def scoresOf (world : ReviewWorld) (jobId : ImportJobId) : List Score :=
  world.tables.scores.filter (·.originatingJobId = some jobId)

/-- The score that a request has made is the only one of its import, with the
document of the request as its only revision and as its source, and each
upload of the import as one of its inputs. -/
structure ConfirmedBy (service : ReviewService) (start world : ReviewWorld) (job : ReviewJob)
    (request : ReviewRequest) (made : ConfirmedScore) : Prop where
  confirm : request.IsConfirm
  jobUuid : request.jobUuid = job.jobUuid
  linked : job.scoreId = some made.scoreId
  scores : world.scoresOf job.id = [made.score]
  revisions : world.tables.revisionsOf made.scoreId = [made.revision]
  contentHash : made.revision.contentHash = service.sha256 request.content
  sources : world.tables.sources.filter (·.revisionId = made.revisionId) = [made.source]
  stored : made.source.storageKey = made.draft.key.path ∧
    world.objects made.draft.key = some request.content
  inputs : ((world.uploads.inputAssets.filter (·.scoreId = made.scoreId)).map
    (·.uploadId)).Perm ((start.uploads.linksOf job.id).map (·.uploadId))
  inputsOnce : ((start.uploads.linksOf job.id).map (·.uploadId)).Nodup

theorem Valid.scoresOf_confirmed (hv : Valid service start world) {made : ConfirmedScore}
    (h : Confirmed start world job made) : world.scoresOf job.id = [made.score] := by
  have horigin : made.score.originatingJobId = some job.id := congrArg some h.jobId
  have hmem : made.score ∈ world.scoresOf job.id :=
    List.mem_filter.mpr ⟨h.score, decide_eq_true horigin⟩
  have hall : ∀ score ∈ world.scoresOf job.id, score = made.score := by
    intro score hscore
    obtain ⟨hscore, ho⟩ := List.mem_filter.mp hscore
    exact hv.tables.origins score hscore _ h.score job.id (of_decide_eq_true ho) horigin
  have hnodup : (world.scoresOf job.id).Nodup :=
    (hv.tables.scoreNodup.of_map _).filter _
  refine List.perm_singleton.mp ((List.perm_ext_iff_of_nodup hnodup (List.nodup_singleton _)).mpr
    fun score => ?_)
  rw [List.mem_singleton]
  constructor
  · exact hall score
  · rintro rfl
    exact hmem

theorem Valid.scoresOf_unlinked (hv : Valid service start world) (hjob : job ∈ world.jobs)
    (hunlinked : job.scoreId = none) : world.scoresOf job.id = [] :=
  List.filter_eq_nil_iff.mpr fun score hscore h =>
    ((hv.jobs job hjob).unlinked hunlinked).2 score hscore (of_decide_eq_true h)

theorem job_eq (h : (world.jobs.map (·.jobUuid)).Nodup) (hjob : job ∈ world.jobs) {jobUuid : String}
    (huuid : job.jobUuid = jobUuid) : world.job jobUuid = some job := by
  rw [← huuid]
  exact find_of_mem h hjob

theorem storedDraft_of_made {made : ConfirmedScore} (h : phase.made = some made) :
    phase.storedDraft = some made.draft := by
  cases phase with
  | stored => cases h
  | _ => exact congrArg (Option.map (·.draft)) h

theorem Valid.confirmedBy (hstart : start.Initial) (hv : Valid service start world)
    (hjob : job ∈ world.jobs) {made : ConfirmedScore}
    (hr : world.requests requestId = some (request, phase)) (hmade : phase.made = some made)
    (hlinked : job.scoreId = some made.scoreId) (h : Confirmed start world job made) :
    ConfirmedBy service start world job request made := by
  have hok := hv.requests _ _ _ hr
  have hstored := storedDraft_of_made hmade
  have hdraft := hok.draft _ (draft_of_storedDraft hstored)
  obtain ⟨job', hjob', huuid, hid⟩ := hdraft.job
  have hsame : job' = job :=
    List.inj_on_of_nodup_map hv.tables.jobIds hjob' hjob (hid.trans h.jobId)
  have hobject := hok.object _ hstored
  rw [hdraft.content] at hobject
  exact
    { confirm := hdraft.confirm
      jobUuid := by rw [← huuid, hsame]
      linked := hlinked
      scores := hv.scoresOf_confirmed h
      revisions := h.revisions
      contentHash := hdraft.contentHash
      sources := h.sources
      stored := ⟨rfl, hobject⟩
      inputs := h.inputs
      inputsOnce := hstart.tables.uploads.links_nodup _ }

/-- The score that a linked import has. -/
theorem Valid.linked_score (hv : Valid service start world) (hjob : job ∈ world.jobs)
    {scoreId : ScoreId} (hlinked : job.scoreId = some scoreId) :
    ∃ score, world.scoresOf job.id = [score] ∧ linkedScore world job = some score ∧
      score.id = scoreId := by
  obtain ⟨-, requestId, request, phase, made, -, -, hid, hconfirmed⟩ :=
    (hv.jobs job hjob).linked scoreId hlinked
  refine ⟨made.score, hv.scoresOf_confirmed hconfirmed, ?_, hid⟩
  rw [linkedScore, hlinked, ← hid]
  exact find_of_mem hv.tables.scoreNodup hconfirmed.score

/-- The answer of a confirm is the score of its import. -/
theorem Valid.answer (hv : Valid service start world) {requestId : Nat} {answer : String}
    (hr : world.requests requestId = some (request, phase)) (ha : phase.answer = some answer)
    (hconfirm : request.IsConfirm) :
    ∃ job ∈ world.jobs, job.jobUuid = request.jobUuid ∧
      ∃ score, world.scoresOf job.id = [score] ∧ score.scoreUuid = answer := by
  obtain ⟨job, hjob, huuid, score, hscore, hlinked, rfl⟩ :=
    (hv.requests _ _ _ hr).answer answer ha hconfirm
  obtain ⟨score', hscores, -, hid⟩ := hv.linked_score hjob hlinked
  have hscore' : score' ∈ world.scoresOf job.id := by
    rw [hscores]
    exact List.mem_singleton_self _
  refine ⟨job, hjob, huuid, score, ?_, rfl⟩
  rw [hscores, List.inj_on_of_nodup_map hv.tables.scoreNodup (List.mem_of_mem_filter hscore')
    hscore hid]

/-- The request has made a score. -/
def Made (world : ReviewWorld) (requestId : Nat) : Prop :=
  ∃ request phase made, world.requests requestId = some (request, phase) ∧
    phase.made = some made

/-- The request has failed before its last transaction. -/
def Failed (world : ReviewWorld) (requestId : Nat) : Prop :=
  ∃ request error reservationId, world.requests requestId =
    some (request, .failed error reservationId)

theorem not_made_of_failed (h : world.Failed requestId) : ¬world.Made requestId := by
  rintro ⟨request, phase, made, hr, hmade⟩
  obtain ⟨request', error, reservationId, hr'⟩ := h
  rw [hr'] at hr
  cases hr
  cases hmade

/-- A step leaves the scores as they are or gives the request its score, which
it keeps. -/
theorem Valid.made_of_step (hv : Valid service start world)
    (hs : Step service world action world') :
    (SameScores world world' ∨ world'.Made action.requestId) ∧
      ∀ requestId, world.Made requestId → world'.Made requestId := by
  obtain ⟨request, hnone, rfl⟩ | ⟨request, phase, hr, after, phase', hstep, hrequests, rfl⟩ :=
    step_cases hv hs
  · refine ⟨.inl ⟨rfl, rfl, rfl, rfl⟩, ?_⟩
    rintro requestId ⟨request', phase, made, hi, hm⟩
    refine ⟨request', phase, made, ?_, hm⟩
    show Function.update world.requests _ _ requestId = _
    rw [Function.update_of_ne, hi]
    rintro rfl
    rw [hnone] at hi
    cases hi
  · have hkept : ∀ made, phase.made = some made → phase'.made = some made := fun _ => hstep.made
    refine ⟨?_, ?_⟩
    · rcases hstep.same_or_commits with ⟨hsame, -⟩ | ⟨made, -, -, hmade, -⟩
      · exact .inl { hsame with }
      · exact .inr ⟨request, phase', made, Function.update_self _ _ _, hmade⟩
    · rintro requestId ⟨request', phase'', made, hi, hm⟩
      obtain ⟨request₁, phase₁, hnow, hm₁⟩ := made_setPhase phase' hr hrequests hkept hi hm
      exact ⟨request₁, phase₁, made, hnow, hm₁⟩

theorem Valid.made_of_run (hv : Valid service start world) (hm : world.Made requestId)
    (h : Reachable (· = world) (Step service) world') : world'.Made requestId := by
  have hboth : Valid service start world' ∧ world'.Made requestId := by
    refine h.invariant (p := fun w => Valid service start w ∧ w.Made requestId)
      (fun w e => ?_) fun _ _ _ hw hs => ⟨hw.1.step hs, (hw.1.made_of_step hs).2 _ hw.2⟩
    rw [e]
    exact ⟨hv, hm⟩
  exact hboth.2

/-- No request makes anything for an import that has its score. -/
theorem Valid.linked_step (hv : Valid service start world) (hs : Step service world action world')
    (hr : world.requests action.requestId = some (request, phase)) (hjob : job ∈ world.jobs)
    (huuid : job.jobUuid = request.jobUuid) (hlinked : job.scoreId ≠ none) :
    SameScores world world' := by
  obtain ⟨request', hnone, -⟩ | ⟨request', phase₀, hr', after, phase', hstep, -, rfl⟩ :=
    step_cases hv hs
  · rw [hnone] at hr
    cases hr
  rw [hr] at hr'
  cases hr'
  rcases hstep.same_or_commits with ⟨hsame, -⟩ | ⟨made, hc, -, -, hd⟩
  · exact { hsame with }
  · obtain ⟨job', hjob', huuid', hid⟩ := ((hv.requests _ _ _ hr).draft _ hd).job
    have hsame : job' = job :=
      List.inj_on_of_nodup_map hv.tables.jobUuids hjob' hjob (huuid'.trans huuid.symm)
    rw [hsame] at hid
    exact absurd (hv.commit_unlinked hc hjob hid) hlinked

/-- A confirm of an import that has its score reads it, and that is all. -/
theorem Valid.confirm_again (hv : Valid service start world) (hs : Step service world action world')
    (hconfirm : request.IsConfirm)
    (hr : world.requests action.requestId = some (request, .received)) (hjob : job ∈ world.jobs)
    (huuid : job.jobUuid = request.jobUuid) (huser : job.userId = request.userId)
    (hlinked : job.scoreId ≠ none) :
    ∃ score, world.scoresOf job.id = [score] ∧ world' = world.setPhase action.requestId request
      (.finishing none [.cleanupBinaryArtifacts] score.scoreUuid) := by
  obtain ⟨scoreId, hscoreId⟩ := Option.ne_none_iff_exists'.mp hlinked
  obtain ⟨score, hscores, hscore, -⟩ := hv.linked_score hjob hscoreId
  have howned : ownedJob world request = .ok job := by
    rw [ownedJob, job_eq hv.tables.jobUuids hjob huuid]
    simp only [huser, ne_eq, not_true, if_false]
  refine ⟨score, hscores, ?_⟩
  cases action with
  | confirm requestId scoreUuid revisionUuid reservationUuid =>
    simp only [Step, next] at hs
    split at hs
    · rename_i jobUuid userId content title hr'
      split_ifs at hs
      cases hs
      cases hr'.symm.trans hr
      simp only [confirmFor, ReviewService.readConfirm, howned, hscore]
      rfl
    · cases hs
  | update requestId uuid fault =>
    simp only [Step, next] at hs
    split at hs
    · rename_i jobUuid userId content hr'
      cases hr'.symm.trans hr
      exact hconfirm.elim
    · cases hs
  | _ =>
    have hr := hr
    simp only [ReviewAction.requestId] at hr
    simp only [Step, next, hr] at hs
    cases hs

/-- However the requests interleave, an import has at most one score, and is
confirmed and linked to it exactly when it exists; the score holds what one
confirm has sent, and each upload of the import once. A request that fails
before its last transaction writes nothing in any of its steps and its
reservation is released, and nothing is left reserved that no running request
holds. Each confirm answers with the one score of its import; once there is
one, no request on the import makes anything, and a confirm only reads it. -/
theorem review_confirm_exactly_once {start : ReviewWorld} (hstart : start.Initial)
    (h : Reachable (· = start) (Step service) world) :
    (∀ job ∈ world.jobs,
      (job.scoreId = none → job.state ≠ .confirmed ∧ world.scoresOf job.id = []) ∧
      (job.scoreId ≠ none → job.state = .confirmed ∧ ∃ requestId request phase made,
        world.requests requestId = some (request, phase) ∧ phase.made = some made ∧
        ConfirmedBy service start world job request made)) ∧
    (∀ requestId request error reservationId, world.requests requestId =
      some (request, .failed error (some reservationId)) →
      world.usage.statusOf reservationId = some .released) ∧
    (∀ uuid, world.usage.statusOf uuid = some .reserved →
      start.usage.statusOf uuid = some .reserved ∨
      ∃ requestId request phase, world.requests requestId = some (request, phase) ∧
        phase.reservation = some (uuid, .reserved)) ∧
    (∀ requestId request phase answer, world.requests requestId = some (request, phase) →
      phase.answer = some answer → request.IsConfirm →
      ∃ job ∈ world.jobs, job.jobUuid = request.jobUuid ∧
        ∃ score, world.scoresOf job.id = [score] ∧ score.scoreUuid = answer) ∧
    ∀ action world', Step service world action world' →
      (∀ later, Reachable (· = world') (Step service) later → later.Failed action.requestId →
        SameScores world world') ∧
      ∀ request phase, world.requests action.requestId = some (request, phase) →
        ∀ job ∈ world.jobs, job.jobUuid = request.jobUuid → job.scoreId ≠ none →
        SameScores world world' ∧
        (request.IsConfirm → phase = .received → job.userId = request.userId →
          ∃ score, world.scoresOf job.id = [score] ∧
            world' = world.setPhase action.requestId request
              (.finishing none [.cleanupBinaryArtifacts] score.scoreUuid)) := by
  have hv := valid_of_reachable hstart h
  refine ⟨fun job hjob => ⟨fun hunlinked => ?_, fun hlinked => ?_⟩,
    fun requestId request error reservationId hr => hv.statusOf hr rfl, fun uuid huuid => ?_,
    fun requestId request phase answer hr ha hconfirm => hv.answer hr ha hconfirm,
    fun action world' hs => ⟨fun later hlater hfailed => ?_,
      fun request phase hr job hjob huuid hlinked => ⟨hv.linked_step hs hr hjob huuid hlinked,
        fun hconfirm hphase huser => ?_⟩⟩⟩
  · exact ⟨((hv.jobs job hjob).unlinked hunlinked).1, hv.scoresOf_unlinked hjob hunlinked⟩
  · obtain ⟨scoreId, hscoreId⟩ := Option.ne_none_iff_exists'.mp hlinked
    obtain ⟨hstate, requestId, request, phase, made, hr, hmade, rfl, hconfirmed⟩ :=
      (hv.jobs job hjob).linked scoreId hscoreId
    exact ⟨hstate, requestId, request, phase, made, hr, hmade,
      hv.confirmedBy hstart hjob hr hmade hscoreId hconfirmed⟩
  · refine (hv.held.reserved uuid huuid).imp_right fun ⟨requestId, hholds⟩ => ?_
    obtain ⟨⟨request, phase⟩, hr, hphase⟩ := Option.bind_eq_some_iff.mp hholds
    exact ⟨requestId, request, phase, hr, hphase⟩
  · rcases (hv.made_of_step hs).1 with hsame | hmade
    · exact hsame
    · exact absurd ((hv.step hs).made_of_run hmade hlater) (not_made_of_failed hfailed)
  · rw [hphase] at hr
    exact hv.confirm_again hs hconfirm hr hjob huuid huser hlinked

/-! ## Two confirms at once -/

def plainReviews : ReviewService := ⟨id, fun _ => true⟩

/-- An import of the first user in review, with one upload. -/
def inReview : ReviewWorld where
  jobs := [⟨1, "j-1", 1, .pendingReview, none, some "Etude"⟩]
  uploads :=
    { blobs := [⟨1, "b-1", "a", "local", ["uploads", "b-1"], 3⟩]
      uploads := [⟨1, "p-1", 1, some 1, 0⟩]
      jobUploads := [⟨1, 1, 1, 1, 0⟩]
      inputAssets := []
      artifacts := [⟨"a-1", 1, .reviewMusicxml, ["jobs", "j-1"], "j-1", none, some 1, none, 0⟩] }
  tables := ⟨[], [], [], 1, 1⟩
  renderAssets := []
  usage := emptyStorage
  objects _ := none
  issued := []
  requests _ := none

theorem inReview_initial : inReview.Initial where
  usage := .start ⟨rfl, rfl, fun _ _ h => (nomatch h), fun _ _ h => (nomatch h)⟩
  requests _ := rfl
  tables :=
    { jobIds := by decide
      jobUuids := by decide
      uploads :=
        { uploadIds := by decide
          blobIds := by decide
          blobUuids := by decide
          links := by decide
          assets := by decide
          linkUploads := by decide
          assetUploads := by decide
          uploadBlobs := by decide }
      links := fun _ _ _ => rfl
      artifactKeys := by
        intro artifact hartifact
        rw [List.mem_singleton.mp hartifact]
        rintro ⟨scoreUuid, revisionUuid, e⟩
        exact absurd (List.cons.inj e).1 (show "jobs" ≠ "scores" by decide)
      blobKeys := by
        intro blob hblob
        rw [List.mem_singleton.mp hblob]
        rintro ⟨scoreUuid, revisionUuid, e⟩
        exact absurd (List.cons.inj e).1 (show "uploads" ≠ "scores" by decide)
      scoreNodup := by decide
      scoreIds := by decide
      revisionIds := by decide
      sourceIds := by decide
      assetIds := by decide
      origins := fun _ h => absurd h List.not_mem_nil }
  jobs := by decide

/-- Both have read the import in review; the second transaction is rolled
back, and a third confirm reads the score. -/
def collidingConfirms : List ReviewAction :=
  [.submit 0 (.confirm "j-1" 1 "b" none), .submit 1 (.confirm "j-1" 1 "c" none),
    .confirm 0 "s-1" "r-1" "u-1", .confirm 1 "s-2" "r-2" "u-2", .putBytes 0 false,
    .putBytes 1 false, .commit 0 ⟨"o-1", "t-1", fun _ => "i-1"⟩ .none,
    .commit 1 ⟨"o-2", "t-2", fun _ => "i-2"⟩ .none, .release 1 false,
    .commitReservation 0 false, .submit 2 (.confirm "j-1" 1 "d" none),
    .confirm 2 "s-3" "r-3" "u-3"]

theorem review_confirm_exactly_once_collidingConfirms :
    ∃ world, run (next plainReviews) inReview collidingConfirms = some world ∧
      (world.scoresOf 1).map (·.scoreUuid) = ["s-1"] ∧
      ∀ job ∈ world.jobs, job.scoreId ≠ none → job.state = .confirmed := by
  have hscores : (run (next plainReviews) inReview collidingConfirms).map
      (fun world => (world.scoresOf 1).map (·.scoreUuid)) = some ["s-1"] := by
    decide
  obtain ⟨world, hworld, huuids⟩ := Option.map_eq_some_iff.mp hscores
  have hreach : Reachable (· = inReview) (Step plainReviews) world := reachable_run hworld
  refine ⟨world, hworld, huuids, fun job hjob hlinked => ?_⟩
  exact (((review_confirm_exactly_once inReview_initial hreach).1 job hjob).2 hlinked).1

end ReviewWorld

end NoteVerse.Backend
