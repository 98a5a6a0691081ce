import NoteVerse.Backend.Realtime

/-!
# What a stream skips

An event takes its number when it is flushed and is seen when its transaction
commits. A stream reads all events up to its cursor (`ClientOk.fetch`), so it
skips an event exactly if a transaction commits it after the cursor has gone
past its number: `nothing_skipped_iff` says so of each step, and
`late_commit_skips` is such a run.
-/

namespace NoteVerse.Backend

open Transition

namespace RealtimeClient

/-- Where the stream of the client goes on: the cursor of the stream, or the
one that the client comes back with. -/
def cursor (client : RealtimeClient) : Nat :=
  match client.stream with
  | .closed => parseLastEventId client.lastEventId
  | .fetching lastSequence _ => lastSequence
  | .emitting lastSequence _ => lastSequence
  | .waiting lastSequence => lastSequence

/-- The events that the stream has read and is about to emit. -/
def messages (client : RealtimeClient) : List RealtimeEvent :=
  match client.stream with
  | .fetching _ messages => messages
  | .emitting _ messages => messages
  | _ => []

/-- What the claim says of a client: each event that is visible to it is
emitted, or about to be, or after the cursor of its stream; the events are
emitted in the order of their numbers, each once, and they are all its own. -/
structure NothingSkipped (events : List RealtimeEvent) (client : RealtimeClient) : Prop where
  seen : ∀ event ∈ events, event.recipientUserId = client.userId →
    event ∈ client.emitted ∨ event ∈ client.messages ∨ client.cursor < event.id
  delivered : ∀ event ∈ events, event.recipientUserId = client.userId →
    event ∈ client.emitted ∨ Keyset.after RealtimeEvent.id 0 client.emitted < event.id
  increasing : client.emitted.Pairwise (·.id < ·.id)
  once : client.emitted.Nodup
  recipient : ∀ event ∈ client.emitted, event.recipientUserId = client.userId

/-- What the streams of the client have read, in this order. -/
def read (client : RealtimeClient) : List RealtimeEvent := client.emitted ++ client.messages

theorem parseLastEventId_repr (n : Nat) : parseLastEventId (some (Nat.repr n)) = n := by
  have hne : Nat.repr n ≠ "" := by
    intro h
    have hread := Python.int?_repr n
    rw [h] at hread
    cases hread
  simp only [parseLastEventId, if_neg hne, Python.int?_repr]
  omega

/-- A client comes back with the number of the last event it has. -/
theorem parse_lastEventId (client : RealtimeClient) :
    parseLastEventId client.lastEventId = Keyset.after RealtimeEvent.id 0 client.emitted := by
  rw [lastEventId, Keyset.after]
  cases client.emitted.getLast? with
  | none => rfl
  | some event => exact parseLastEventId_repr event.id

end RealtimeClient

/-! ## What holds of a client -/

/-- The events that a client has read are its own, in order and up to its
cursor, and none of them is in a transaction; up to its cursor it has read
all of them. -/
structure ClientOk (events : List RealtimeEvent) (nextId : Nat)
    (transactions : Nat → List RealtimeEvent) (client : RealtimeClient) : Prop where
  order : client.read.Pairwise (·.id < ·.id)
  recipient : ∀ event ∈ client.read, event.recipientUserId = client.userId
  le : ∀ event ∈ client.read, event.id ≤ client.cursor
  old : ∀ event ∈ client.read, event.id < nextId ∧
    ∀ transaction, event ∉ transactions transaction
  seen : ∀ event ∈ events, event.recipientUserId = client.userId →
    event ∈ client.read ∨ client.cursor < event.id

namespace ClientOk

variable {events : List RealtimeEvent} {nextId : Nat} {transactions : Nat → List RealtimeEvent}
  {client client' : RealtimeClient}

theorem congr (h : ClientOk events nextId transactions client)
    (huser : client'.userId = client.userId) (hread : client'.read = client.read)
    (hcursor : client'.cursor = client.cursor) :
    ClientOk events nextId transactions client' := by
  obtain ⟨horder, hrecipient, hle, hold, hseen⟩ := h
  rw [← hread] at horder hrecipient hle hold hseen
  rw [← huser] at hrecipient hseen
  rw [← hcursor] at hle hseen
  exact ⟨horder, hrecipient, hle, hold, hseen⟩

/-- What is visible to a client is emitted to it, or after the last event that is. -/
theorem delivered (h : ClientOk events nextId transactions client)
    (hpos : ∀ event ∈ events, 0 < event.id) :
    ∀ event ∈ events, event.recipientUserId = client.userId →
      event ∈ client.emitted ∨ Keyset.after RealtimeEvent.id 0 client.emitted < event.id := by
  intro event hevent huser
  have hlater : (∀ old ∈ client.emitted, old.id < event.id) →
      Keyset.after RealtimeEvent.id 0 client.emitted < event.id :=
    Keyset.after_lt (hpos event hevent)
  rcases h.seen event hevent huser with hread | hcursor
  · rcases List.mem_append.mp hread with hemitted | hmessage
    · exact .inl hemitted
    · refine .inr (hlater fun old hold => ?_)
      exact (List.pairwise_append.mp h.order).2.2 old hold event hmessage
  · refine .inr (hlater fun old hold => ?_)
    exact (h.le old (List.mem_append_left _ hold)).trans_lt hcursor

theorem nothingSkipped (h : ClientOk events nextId transactions client)
    (hpos : ∀ event ∈ events, 0 < event.id) : client.NothingSkipped events where
  seen event hevent huser := by
    rcases h.seen event hevent huser with hread | hcursor
    · rcases List.mem_append.mp hread with hemitted | hmessage
      · exact .inl hemitted
      · exact .inr (.inl hmessage)
    · exact .inr (.inr hcursor)
  delivered := h.delivered hpos
  increasing := (List.pairwise_append.mp h.order).1
  once := (List.pairwise_append.mp h.order).1.imp fun hlt e => by
    rw [e] at hlt
    exact absurd hlt (Nat.lt_irrefl _)
  recipient event hevent := h.recipient event (List.mem_append_left _ hevent)

/-! ## The steps of a client -/

theorem fetch_cases {service : RealtimeService}
    (h : client.fetch service events = some client') :
    client'.userId = client.userId ∧
      client'.read =
        client.read ++ service.fetchPendingEvents events client.userId client.cursor ∧
      client'.cursor = Keyset.after RealtimeEvent.id client.cursor
        (service.fetchPendingEvents events client.userId client.cursor) := by
  obtain ⟨userId, emitted, stream, queue⟩ := client
  cases stream with
  | fetching lastSequence messages =>
    simp only [RealtimeClient.fetch] at h
    split_ifs at h
    · cases h
      exact ⟨rfl, (List.append_assoc _ _ _).symm, rfl⟩
    · cases h
      exact ⟨rfl, (List.append_assoc _ _ _).symm, rfl⟩
  | _ => cases h

/-- A batch leaves out no event up to the new cursor. -/
theorem fetch {service : RealtimeService} (hids : (events.map (·.id)).Nodup)
    (hold : ∀ event ∈ events, event.id < nextId ∧
      ∀ transaction, event ∉ transactions transaction)
    (h : ClientOk events nextId transactions client)
    (hf : client.fetch service events = some client') :
    ClientOk events nextId transactions client' := by
  obtain ⟨huser, hread, hcursor⟩ := fetch_cases hf
  have hown : ((events.filter (·.recipientUserId = client.userId)).map (·.id)).Nodup :=
    hids.sublist (List.filter_sublist.map _)
  have hrow : ∀ event ∈ service.fetchPendingEvents events client.userId client.cursor,
      event ∈ events ∧ event.recipientUserId = client.userId ∧ client.cursor < event.id := by
    intro event hevent
    obtain ⟨hmem, hlt⟩ := Keyset.of_mem_page hevent
    obtain ⟨hmem, hr⟩ := List.mem_filter.mp hmem
    exact ⟨hmem, of_decide_eq_true hr, hlt⟩
  have hpage : (service.fetchPendingEvents events client.userId client.cursor).Pairwise
      (·.id < ·.id) := Keyset.page_pairwise hown
  constructor
  · rw [hread, List.pairwise_append]
    refine ⟨h.order, hpage, fun old hold event hevent => ?_⟩
    exact (h.le old hold).trans_lt (hrow event hevent).2.2
  · intro event hevent
    rw [hread, List.mem_append] at hevent
    rw [huser]
    rcases hevent with hevent | hevent
    · exact h.recipient event hevent
    · exact (hrow event hevent).2.1
  · intro event hevent
    rw [hread, List.mem_append] at hevent
    rw [hcursor]
    rcases hevent with hevent | hevent
    · exact (h.le event hevent).trans (Keyset.cursor_le_after hown)
    · exact Keyset.le_after hpage hevent
  · intro event hevent
    rw [hread, List.mem_append] at hevent
    rcases hevent with hevent | hevent
    · exact h.old event hevent
    · exact hold event (hrow event hevent).1
  · intro event hevent hr
    rw [huser] at hr
    rw [hread, hcursor, List.mem_append]
    rcases h.seen event hevent hr with hold | hlt
    · exact .inl (.inl hold)
    by_cases hle : event.id ≤ Keyset.after RealtimeEvent.id client.cursor
        (service.fetchPendingEvents events client.userId client.cursor)
    · have hmem : event ∈ events.filter (·.recipientUserId = client.userId) :=
        List.mem_filter.mpr ⟨hevent, decide_eq_true hr⟩
      exact .inl (.inr (Keyset.mem_page hown hmem hlt hle))
    · exact .inr (Nat.lt_of_not_le hle)

theorem emit (h : ClientOk events nextId transactions client)
    (he : client.emit = some client') : ClientOk events nextId transactions client' := by
  obtain ⟨userId, emitted, stream, queue⟩ := client
  cases stream with
  | emitting lastSequence messages =>
    cases messages with
    | nil =>
      cases he
      exact h.congr rfl rfl rfl
    | cons event messages =>
      cases he
      exact h.congr rfl (List.append_assoc _ _ _) rfl
  | _ => cases he

theorem wake {timeout : Bool} (h : ClientOk events nextId transactions client)
    (hw : client.wake timeout = some client') : ClientOk events nextId transactions client' := by
  obtain ⟨userId, emitted, stream, queue⟩ := client
  cases stream with
  | waiting lastSequence =>
    simp only [RealtimeClient.wake] at hw
    split_ifs at hw
    cases hw
    exact h.congr rfl rfl rfl
  | _ => cases hw

/-- A stream that ends goes back to the last event that is emitted. -/
theorem closed (h : ClientOk events nextId transactions client)
    (hpos : ∀ event ∈ events, 0 < event.id) (huser : client'.userId = client.userId)
    (hread : client'.read = client.emitted)
    (hcursor : client'.cursor = parseLastEventId client.lastEventId) :
    ClientOk events nextId transactions client' := by
  have horder := (List.pairwise_append.mp h.order).1
  rw [RealtimeClient.parse_lastEventId] at hcursor
  have hold : ∀ event ∈ client'.read, event ∈ client.read := by
    rw [hread]
    exact fun event hevent => List.mem_append_left _ hevent
  refine ⟨hread ▸ horder, fun event hevent => ?_, fun event hevent => ?_,
    fun event hevent => h.old event (hold event hevent), fun event hevent hr => ?_⟩
  · rw [huser]
    exact h.recipient event (hold event hevent)
  · rw [hcursor]
    rw [hread] at hevent
    exact Keyset.le_after horder hevent
  · rw [hread, hcursor]
    exact h.delivered hpos event hevent (hr.trans huser)

theorem disconnect (h : ClientOk events nextId transactions client)
    (hpos : ∀ event ∈ events, 0 < event.id) (hd : client.disconnect = some client') :
    ClientOk events nextId transactions client' := by
  obtain ⟨userId, emitted, stream, queue⟩ := client
  cases stream with
  | closed => cases hd
  | _ =>
    cases hd
    exact h.closed hpos rfl (List.append_nil _) rfl

theorem reconnect (h : ClientOk events nextId transactions client)
    (hr : client.reconnect = some client') : ClientOk events nextId transactions client' := by
  obtain ⟨userId, emitted, stream, queue⟩ := client
  cases stream with
  | closed =>
    cases hr
    exact h.congr rfl rfl rfl
  | _ => cases hr

/-- A notification changes the queue only. -/
theorem notify_same (client : RealtimeClient) (payloads : List NotificationPayload) :
    (client.notify payloads).userId = client.userId ∧
      (client.notify payloads).read = client.read ∧
      (client.notify payloads).cursor = client.cursor := by
  unfold RealtimeClient.notify
  split_ifs
  · exact ⟨rfl, rfl, rfl⟩
  · exact ⟨rfl, rfl, rfl⟩

end ClientOk

namespace RealtimeWorld

variable {service : RealtimeService} {world world' : RealtimeWorld}

/-- Events that are visible, no event flushed and no client so far. -/
structure Initial (world : RealtimeWorld) : Prop where
  ids : (world.events.map (·.id)).Nodup
  bounds : ∀ event ∈ world.events, 0 < event.id ∧ event.id < world.nextId
  nextId : 0 < world.nextId
  transactions : ∀ transaction, world.transactions transaction = []
  clients : ∀ clientId, world.clients clientId = none

/-- The invariant: the sequence gives no number twice, and what holds of the
clients. -/
structure Valid (world : RealtimeWorld) : Prop where
  nextId : 0 < world.nextId
  ids : (world.events.map (·.id)).Nodup
  bounds : ∀ event ∈ world.events, 0 < event.id ∧ event.id < world.nextId
  flushedIds : ∀ transaction, ((world.transactions transaction).map (·.id)).Nodup
  flushed : ∀ transaction, ∀ event ∈ world.transactions transaction,
    0 < event.id ∧ event.id < world.nextId ∧ ∀ event' ∈ world.events, event'.id ≠ event.id
  apart : ∀ i j, ∀ event ∈ world.transactions i, ∀ event' ∈ world.transactions j,
    event.id = event'.id → i = j
  clients : ∀ clientId client, world.clients clientId = some client →
    ClientOk world.events world.nextId world.transactions client

theorem Initial.valid (h : Initial world) : Valid world where
  nextId := h.nextId
  ids := h.ids
  bounds := h.bounds
  flushedIds transaction := by
    rw [h.transactions]
    exact List.nodup_nil
  flushed transaction event hevent := by
    rw [h.transactions] at hevent
    exact absurd hevent List.not_mem_nil
  apart i j event hevent := by
    rw [h.transactions] at hevent
    exact absurd hevent List.not_mem_nil
  clients clientId client hclient := by
    rw [h.clients] at hclient
    cases hclient

theorem Valid.old (hv : Valid world) : ∀ event ∈ world.events, event.id < world.nextId ∧
    ∀ transaction, event ∉ world.transactions transaction := fun event hevent =>
  ⟨(hv.bounds event hevent).2, fun transaction hflushed =>
    (hv.flushed transaction event hflushed).2.2 event hevent rfl⟩

/-! ## The steps of publishers -/

theorem Valid.publish (hv : Valid world) (transaction : Nat) (request : PublishRequest) :
    Valid (world.publishEvent transaction request) := by
  -- an event of a transaction is an old one or has the new number
  have hcases : ∀ t event, event ∈ (world.publishEvent transaction request).transactions t →
      event ∈ world.transactions t ∨ t = transaction ∧ event.id = world.nextId := by
    intro t event hevent
    have hevent : event ∈ Function.update world.transactions transaction
      (world.transactions transaction ++ [request.event world.nextId]) t := hevent
    rw [Function.update_apply] at hevent
    split_ifs at hevent with ht
    · rcases List.mem_append.mp hevent with hevent | hevent
      · exact .inl (ht ▸ hevent)
      · rw [List.mem_singleton.mp hevent]
        exact .inr ⟨ht, rfl⟩
    · exact .inl hevent
  refine ⟨Nat.succ_pos _, hv.ids, fun event hevent => ?_, fun t => ?_, fun t event hevent => ?_,
    fun i j event hevent event' hevent' e => ?_, fun clientId client hclient => ?_⟩
  · obtain ⟨hpos, hlt⟩ := hv.bounds event hevent
    exact ⟨hpos, Nat.lt_succ_of_lt hlt⟩
  · show ((Function.update world.transactions transaction _ t).map (·.id)).Nodup
    rw [Function.update_apply]
    split_ifs
    · rw [List.map_append, List.map_singleton, List.nodup_append]
      refine ⟨hv.flushedIds transaction, List.nodup_singleton _, fun id hid id' hid' => ?_⟩
      obtain ⟨event, hevent, rfl⟩ := List.mem_map.mp hid
      rw [List.mem_singleton.mp hid']
      exact Nat.ne_of_lt (hv.flushed transaction event hevent).2.1
    · exact hv.flushedIds t
  · rcases hcases t event hevent with hold | ⟨-, hid⟩
    · obtain ⟨hpos, hlt, hne⟩ := hv.flushed t event hold
      exact ⟨hpos, Nat.lt_succ_of_lt hlt, hne⟩
    · rw [hid]
      refine ⟨hv.nextId, Nat.lt_succ_self _, fun event' hevent' => ?_⟩
      exact Nat.ne_of_lt (hv.bounds event' hevent').2
  · rcases hcases i event hevent with hi | ⟨hi, hid⟩
    · rcases hcases j event' hevent' with hj | ⟨-, hid'⟩
      · exact hv.apart i j event hi event' hj e
      · have hlt := (hv.flushed i event hi).2.1
        omega
    · rcases hcases j event' hevent' with hj | ⟨hj, -⟩
      · have hlt := (hv.flushed j event' hj).2.1
        omega
      · rw [hi, hj]
  · have hok := hv.clients clientId client hclient
    refine ⟨hok.order, hok.recipient, hok.le, fun event hevent => ?_, hok.seen⟩
    obtain ⟨hlt, hnot⟩ := hok.old event hevent
    refine ⟨Nat.lt_succ_of_lt hlt, fun t ht => ?_⟩
    rcases hcases t event ht with ht | ⟨-, hid⟩
    · exact hnot t ht
    · omega

/-- A transaction ends: what it has flushed is visible, or gone. -/
theorem mem_ended {transaction t : Nat} {event : RealtimeEvent}
    (h : event ∈ Function.update world.transactions transaction [] t) :
    t ≠ transaction ∧ event ∈ world.transactions t := by
  rw [Function.update_apply] at h
  split_ifs at h with ht
  · exact absurd h List.not_mem_nil
  · exact ⟨ht, h⟩

theorem Valid.ended_ids (hv : Valid world) (transaction t : Nat) :
    ((Function.update world.transactions transaction [] t).map (·.id)).Nodup := by
  rw [Function.update_apply]
  split_ifs
  · exact List.nodup_nil
  · exact hv.flushedIds t

theorem Valid.rollback (hv : Valid world) (transaction : Nat) :
    Valid (world.rollback transaction) where
  nextId := hv.nextId
  ids := hv.ids
  bounds := hv.bounds
  flushedIds := hv.ended_ids transaction
  flushed t event hevent := hv.flushed t event (mem_ended hevent).2
  apart i j event hevent event' hevent' :=
    hv.apart i j event (mem_ended hevent).2 event' (mem_ended hevent').2
  clients clientId client hclient := by
    have hok := hv.clients clientId client hclient
    refine ⟨hok.order, hok.recipient, hok.le, fun event hevent => ?_, hok.seen⟩
    obtain ⟨hlt, hnot⟩ := hok.old event hevent
    exact ⟨hlt, fun t ht => hnot t (mem_ended ht).2⟩

theorem Valid.cleanup (hv : Valid world) (cutoff : Int) :
    Valid (world.cleanupExpiredEvents cutoff) where
  nextId := hv.nextId
  ids := hv.ids.sublist (List.filter_sublist.map _)
  bounds event hevent := hv.bounds event (List.mem_of_mem_filter hevent)
  flushedIds := hv.flushedIds
  flushed t event hevent := by
    obtain ⟨hpos, hlt, hne⟩ := hv.flushed t event hevent
    exact ⟨hpos, hlt, fun event' hevent' => hne event' (List.mem_of_mem_filter hevent')⟩
  apart := hv.apart
  clients clientId client hclient := by
    have hok := hv.clients clientId client hclient
    refine ⟨hok.order, hok.recipient, hok.le, hok.old, fun event hevent => ?_⟩
    exact hok.seen event (List.mem_of_mem_filter hevent)

/-! ## The condition on commits -/

/-- A commit makes no event visible whose number the stream of a recipient has
already gone past. -/
def Timely (world : RealtimeWorld) : RealtimeAction → Prop
  | .commit transaction => ∀ event ∈ world.transactions transaction, ∀ clientId client,
    world.clients clientId = some client → client.userId = event.recipientUserId →
    client.cursor < event.id
  | _ => True

theorem commit_client {transaction clientId : Nat} {client' : RealtimeClient}
    (h : (world.commit service transaction).clients clientId = some client') :
    ∃ client, world.clients clientId = some client ∧ client'.userId = client.userId ∧
      client'.read = client.read ∧ client'.cursor = client.cursor := by
  obtain ⟨client, hclient, rfl⟩ := Option.map_eq_some_iff.mp h
  exact ⟨client, hclient, ClientOk.notify_same client _⟩

theorem Valid.commit (hv : Valid world) {transaction : Nat}
    (ht : world.Timely (.commit transaction)) : Valid (world.commit service transaction) := by
  refine ⟨hv.nextId, ?_, fun event hevent => ?_, hv.ended_ids transaction,
    fun t event hevent => ?_, fun i j event hevent event' hevent' => ?_,
    fun clientId client' hclient' => ?_⟩
  · show ((world.events ++ world.transactions transaction).map (·.id)).Nodup
    rw [List.map_append, List.nodup_append]
    refine ⟨hv.ids, hv.flushedIds transaction, fun id hid id' hid' => ?_⟩
    obtain ⟨event, hevent, rfl⟩ := List.mem_map.mp hid
    obtain ⟨event', hevent', rfl⟩ := List.mem_map.mp hid'
    exact (hv.flushed transaction event' hevent').2.2 event hevent
  · rcases List.mem_append.mp hevent with hevent | hevent
    · exact hv.bounds event hevent
    · obtain ⟨hpos, hlt, -⟩ := hv.flushed transaction event hevent
      exact ⟨hpos, hlt⟩
  · obtain ⟨hne, hevent⟩ := mem_ended hevent
    obtain ⟨hpos, hlt, hfresh⟩ := hv.flushed t event hevent
    refine ⟨hpos, hlt, fun event' hevent' => ?_⟩
    rcases List.mem_append.mp hevent' with hevent' | hevent'
    · exact hfresh event' hevent'
    · exact fun e => hne (hv.apart t transaction event hevent event' hevent' e.symm)
  · exact hv.apart i j event (mem_ended hevent).2 event' (mem_ended hevent').2
  · obtain ⟨client, hclient, huser, hread, hcursor⟩ := commit_client hclient'
    have hok := hv.clients clientId client hclient
    refine ClientOk.congr ⟨hok.order, hok.recipient, hok.le, fun event hevent => ?_,
      fun event hevent hr => ?_⟩ huser hread hcursor
    · obtain ⟨hlt, hnot⟩ := hok.old event hevent
      exact ⟨hlt, fun t ht => hnot t (mem_ended ht).2⟩
    · rcases List.mem_append.mp hevent with hevent | hevent
      · exact hok.seen event hevent hr
      · exact .inr (ht event hevent clientId client hclient hr.symm)

/-! ## The steps of clients -/

theorem Valid.setClient (hv : Valid world) (clientId : Nat) {client : RealtimeClient}
    (h : ClientOk world.events world.nextId world.transactions client) :
    Valid (world.setClient clientId client) where
  nextId := hv.nextId
  ids := hv.ids
  bounds := hv.bounds
  flushedIds := hv.flushedIds
  flushed := hv.flushed
  apart := hv.apart
  clients i client' hclient' := by
    have hclient' : Function.update world.clients clientId (some client) i = some client' := hclient'
    rw [Function.update_apply] at hclient'
    split_ifs at hclient'
    · cases hclient'
      exact h
    · exact hv.clients i client' hclient'

theorem Valid.withClient (hv : Valid world) {clientId : Nat}
    {f : RealtimeClient → Option RealtimeClient} (hs : world.withClient clientId f = some world')
    (h : ∀ client client', ClientOk world.events world.nextId world.transactions client →
      f client = some client' → ClientOk world.events world.nextId world.transactions client') :
    Valid world' := by
  obtain ⟨client, hclient, hs⟩ := Option.bind_eq_some_iff.mp hs
  obtain ⟨client', hf, rfl⟩ := Option.map_eq_some_iff.mp hs
  exact hv.setClient clientId (h client client' (hv.clients clientId client hclient) hf)

theorem Valid.connect (hv : Valid world) (clientId : Nat) (userId : UserId) :
    Valid (world.setClient clientId (RealtimeClient.connected ⟨userId, [], .closed, 0⟩)) := by
  refine hv.setClient clientId ⟨List.Pairwise.nil, fun event h => absurd h List.not_mem_nil,
    fun event h => absurd h List.not_mem_nil, fun event h => absurd h List.not_mem_nil,
    fun event hevent _ => .inr (hv.bounds event hevent).1⟩

theorem Valid.step {action : RealtimeAction} (hv : Valid world) (ht : world.Timely action)
    (hs : Step service world action world') : Valid world' := by
  have hpos : ∀ event ∈ world.events, 0 < event.id := fun event hevent =>
    (hv.bounds event hevent).1
  cases action with
  | publish transaction request =>
    cases hs
    exact hv.publish transaction request
  | commit transaction =>
    cases hs
    exact hv.commit ht
  | rollback transaction =>
    cases hs
    exact hv.rollback transaction
  | cleanupExpiredEvents cutoff =>
    cases hs
    exact hv.cleanup cutoff
  | connect clientId userId =>
    simp only [Step, next] at hs
    split at hs
    · cases hs
      exact hv.connect clientId userId
    · cases hs
  | fetch clientId => exact hv.withClient hs fun _ _ h hf => h.fetch hv.ids hv.old hf
  | emit clientId => exact hv.withClient hs fun _ _ h hf => h.emit hf
  | wake clientId timeout => exact hv.withClient hs fun _ _ h hf => h.wake hf
  | disconnect clientId => exact hv.withClient hs fun _ _ h hf => h.disconnect hpos hf
  | reconnect clientId => exact hv.withClient hs fun _ _ h hf => h.reconnect hf

/-! ## The claim about runs -/

/-- No stream has skipped an event. -/
def NothingSkipped (world : RealtimeWorld) : Prop :=
  ∀ clientId client, world.clients clientId = some client → client.NothingSkipped world.events

theorem Valid.nothingSkipped (hv : Valid world) : world.NothingSkipped :=
  fun clientId client hclient => (hv.clients clientId client hclient).nothingSkipped
    fun event hevent => (hv.bounds event hevent).1

theorem valid_of_reachable (h : Reachable Initial (guarded Timely (Step service)) world) :
    Valid world :=
  h.invariant (fun _ h => h.valid) fun _ _ _ hv hs => hv.step hs.1 hs.2

/-- A late commit skips an event at once. -/
theorem Valid.timely_of_nothingSkipped (hv : Valid world) {transaction : Nat}
    (h : (world.commit service transaction).NothingSkipped) :
    world.Timely (.commit transaction) := by
  intro event hevent clientId client hclient huser
  obtain ⟨payloads, hnow⟩ : ∃ payloads,
      (world.commit service transaction).clients clientId = some (client.notify payloads) :=
    ⟨_, congrArg (Option.map _) hclient⟩
  obtain ⟨hsame, hread, hcursor⟩ := ClientOk.notify_same client payloads
  have hnot := ((hv.clients clientId client hclient).old event · |>.2 transaction hevent)
  have hmem : event ∈ (world.commit service transaction).events :=
    List.mem_append_right _ hevent
  rcases (h clientId _ hnow).seen event hmem (huser.symm.trans hsame.symm) with hold | hold | hlt
  · exact absurd (hread ▸ List.mem_append_left _ hold) hnot
  · exact absurd (hread ▸ List.mem_append_right _ hold) hnot
  · rwa [hcursor] at hlt

/-- As long as each commit comes before the streams of its recipients have gone
past its events, no stream skips an event; a step after which none has skipped
one is exactly such a step. -/
theorem nothing_skipped_iff (h : Reachable Initial (guarded Timely (Step service)) world) :
    world.NothingSkipped ∧ ∀ action world', Step service world action world' →
      (world'.NothingSkipped ↔ world.Timely action) := by
  have hv := valid_of_reachable h
  refine ⟨hv.nothingSkipped, fun action world' hs => ⟨fun hn => ?_, fun ht => ?_⟩⟩
  · cases action with
    | commit transaction =>
      cases hs
      exact hv.timely_of_nothingSkipped hn
    | _ => trivial
  · exact (hv.step ht hs).nothingSkipped

/-! ## Two transactions -/

def defaultRealtime : RealtimeService := ⟨100, true⟩

def emptyRealtime : RealtimeWorld := ⟨[], 1, fun _ => [], fun _ => none⟩

theorem emptyRealtime_initial : emptyRealtime.Initial where
  ids := List.nodup_nil
  bounds event h := absurd h List.not_mem_nil
  nextId := by decide
  transactions _ := rfl
  clients _ := rfl

def notificationCreated (eventUuid : String) : PublishRequest :=
  ⟨eventUuid, 1, "notification.created", none, none, 0⟩

/-- The first transaction flushes before the second one and commits after it;
in between the stream of their recipient reads. -/
def lateCommit : List RealtimeAction :=
  [.connect 0 1, .publish 0 (notificationCreated "e-1"), .publish 1 (notificationCreated "e-2"),
    .commit 1, .fetch 0, .emit 0, .emit 0, .commit 0]

/-- The event of the first transaction is visible and the stream waits for
events after a later one. -/
theorem late_commit_skips :
    ∃ world, Reachable Initial (Step defaultRealtime) world ∧ ¬world.NothingSkipped ∧
      ∃ client, world.clients 0 = some client ∧ client.stream = .waiting 2 ∧
        client.emitted = [(notificationCreated "e-2").event 2] ∧
        (notificationCreated "e-1").event 1 ∈ world.events := by
  have hrun : (run (next defaultRealtime) emptyRealtime lateCommit).map
      (fun world => (world.clients 0, world.events)) =
      some (some ⟨1, [(notificationCreated "e-2").event 2], .waiting 2, 2⟩,
        [(notificationCreated "e-2").event 2, (notificationCreated "e-1").event 1]) := by
    decide
  obtain ⟨world, hworld, hstate⟩ := Option.map_eq_some_iff.mp hrun
  obtain ⟨hclient, hevents⟩ := Prod.mk.inj hstate
  have hreach : Reachable Initial (Step defaultRealtime) world :=
    reachable_of_run_from (.start emptyRealtime_initial) hworld
  have hmem : (notificationCreated "e-1").event 1 ∈ world.events := by
    rw [hevents]
    decide
  refine ⟨world, hreach, fun hn => ?_, _, hclient, rfl, rfl, hmem⟩
  rcases (hn 0 _ hclient).seen _ hmem rfl with hold | hold | hlt
  · exact absurd hold (by decide)
  · exact absurd hold (by decide)
  · exact absurd hlt (by decide)

/-- A commit that comes before the stream reads. -/
theorem nothing_skipped_iff_promptCommit :
    ∃ world : RealtimeWorld, world.clients 0 =
      some ⟨1, [], .emitting 1 [(notificationCreated "e-1").event 1], 1⟩ ∧
      world.NothingSkipped := by
  have hflushed : Reachable Initial (guarded Timely (Step defaultRealtime))
      ((emptyRealtime.setClient 0 (RealtimeClient.connected ⟨1, [], .closed, 0⟩)).publishEvent 0
        (notificationCreated "e-1")) := by
    refine .step (a := RealtimeAction.publish 0 (notificationCreated "e-1")) ?_ ⟨trivial, rfl⟩
    exact .step (a := RealtimeAction.connect 0 1) (.start emptyRealtime_initial) ⟨trivial, rfl⟩
  have hcommitted := hflushed.step (a := RealtimeAction.commit 0) ⟨fun event hevent clientId
    client hclient _ => by
      rw [List.mem_singleton.mp hevent]
      have hclient : Function.update (fun _ => none) 0 _ clientId = some client := hclient
      rw [Function.update_apply] at hclient
      split_ifs at hclient
      cases hclient
      decide, rfl⟩
  have hfetched := hcommitted.step (a := RealtimeAction.fetch 0) ⟨trivial, rfl⟩
  exact ⟨_, by decide, (nothing_skipped_iff hfetched).1⟩

end RealtimeWorld

end NoteVerse.Backend
