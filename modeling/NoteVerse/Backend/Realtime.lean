import NoteVerse.Backend.StorageUsage
import NoteVerse.Lib.Keyset
import NoteVerse.Lib.Python
import NoteVerse.Lib.Transition

/-!
# Realtime events

The publishers of `realtime/publisher.py` and the event stream of
`realtime/router.py`. A publisher flushes events in a transaction, which gives
them numbers of the sequence, and commits or rolls back later; an event of a
score is one `publish` for each of its recipients. A stream reads the events
after its cursor batch by batch, yields their messages one by one, and waits
for a notification or for the catch-up interval. A client that comes back
sends the id of the last message it has received.

`RealtimeWorld.next` composes any number of transactions and of clients. The
payload of an event is left out: a message does not carry it.
-/

namespace NoteVerse.Backend

open Python

/-- The columns of `realtime_events`. -/
structure RealtimeEvent where
  id : Nat
  eventUuid : String
  recipientUserId : UserId
  type : String
  scoreId : Option String
  revisionId : Option String
  createdAt : Int
  deriving DecidableEq, Repr

/-- The settings that the realtime code reads. -/
structure RealtimeService where
  /-- `EVENT_BATCH_SIZE` -/
  batchSize : Nat
  supportsPostgresNotify : Bool

/-! ## Messages -/

structure RealtimeEventRead where
  schemaVersion : Nat
  eventId : String
  sequence : Nat
  type : String
  scoreId : Option String
  revisionId : Option String
  createdAt : Int
  deriving DecidableEq, Repr

/-- The fields of a message of the stream. -/
structure SseMessage where
  id : String
  event : String
  data : RealtimeEventRead
  deriving DecidableEq, Repr

/-- `_format_sse` -/
def formatSse (event : RealtimeEvent) : SseMessage where
  id := Nat.repr event.id
  event := event.type
  data :=
    { schemaVersion := 1, eventId := event.eventUuid, sequence := event.id, type := event.type
      scoreId := event.scoreId, revisionId := event.revisionId, createdAt := event.createdAt }

/-- `_parse_last_event_id` -/
def parseLastEventId : Option String → Nat
  | none => 0
  | some value =>
    if value = "" then 0
    else
      match int? value with
      | none => 0
      | some sequence => (max 0 sequence).toNat

/-- The payload of a notification. -/
structure NotificationPayload where
  eventId : Nat
  recipientUserId : UserId
  deriving DecidableEq, Repr

/-- `_notification_payload` -/
def notificationPayload (event : RealtimeEvent) : NotificationPayload where
  eventId := event.id
  recipientUserId := event.recipientUserId

/-- `_payload_matches_user` -/
def payloadMatchesUser (payload : NotificationPayload) (userId : UserId) : Bool :=
  payload.recipientUserId = userId

/-! ## Streams -/

/-- Where the stream of a client is. The messages are those that are read and
not yielded yet, as the rows they are made of. -/
inductive EventStream
  | closed
  | fetching (lastSequence : Nat) (messages : List RealtimeEvent)
  | emitting (lastSequence : Nat) (messages : List RealtimeEvent)
  | waiting (lastSequence : Nat)
  deriving DecidableEq, Repr

/-- A client, with the events that its streams have emitted to it. -/
structure RealtimeClient where
  userId : UserId
  emitted : List RealtimeEvent
  stream : EventStream
  /-- How many notifications are in the queue of the stream. -/
  queue : Nat
  deriving DecidableEq, Repr

/-- `_fetch_pending_events` -/
def RealtimeService.fetchPendingEvents (service : RealtimeService) (events : List RealtimeEvent)
    (userId : UserId) (lastSequence : Nat) : List RealtimeEvent :=
  Keyset.page RealtimeEvent.id service.batchSize lastSequence
    (events.filter (·.recipientUserId = userId))

namespace RealtimeClient

variable (client : RealtimeClient)

/-- The header that the client comes back with. -/
def lastEventId : Option String := client.emitted.getLast?.map fun event => (formatSse event).id

/-- A new stream, after the last event that the client has received. -/
def connected : RealtimeClient :=
  { client with stream := .fetching (parseLastEventId client.lastEventId) [], queue := 0 }

/-- What `_event_stream` and `_emit_pending_events` do next with a batch, if
they read one. -/
def fetch (service : RealtimeService) (events : List RealtimeEvent) : Option RealtimeClient :=
  match client.stream with
  | .fetching lastSequence messages =>
    let rows := service.fetchPendingEvents events client.userId lastSequence
    let lastSequence := Keyset.after RealtimeEvent.id lastSequence rows
    if rows = [] ∨ rows.length < service.batchSize then
      some { client with stream := .emitting lastSequence (messages ++ rows) }
    else some { client with stream := .fetching lastSequence (messages ++ rows) }
  | _ => none

/-- The next message is yielded; after the last one the stream waits. -/
def emit : Option RealtimeClient :=
  match client.stream with
  | .emitting lastSequence [] => some { client with stream := .waiting lastSequence }
  | .emitting lastSequence (event :: messages) =>
    some { client with
      emitted := client.emitted ++ [event], stream := .emitting lastSequence messages }
  | _ => none

/-- The wait ends, by a notification or after the catch-up interval. -/
def wake (timeout : Bool) : Option RealtimeClient :=
  match client.stream with
  | .waiting lastSequence =>
    if timeout ∨ 0 < client.queue then
      some { client with stream := .fetching lastSequence [], queue := 0 }
    else none
  | _ => none

/-- The stream ends, wherever it is. -/
def disconnect : Option RealtimeClient :=
  match client.stream with
  | .closed => none
  | _ => some { client with stream := .closed, queue := 0 }

def reconnect : Option RealtimeClient :=
  match client.stream with
  | .closed => some client.connected
  | _ => none

/-- The listener of an open stream, for the notifications of a commit. -/
def notify (payloads : List NotificationPayload) : RealtimeClient :=
  if client.stream = .closed then client
  else { client with
    queue := client.queue + (payloads.filter (payloadMatchesUser · client.userId)).length }

end RealtimeClient

/-! ## The system -/

/-- What a publisher says of an event. -/
structure PublishRequest where
  eventUuid : String
  recipientUserId : UserId
  type : String
  scoreId : Option String
  revisionId : Option String
  createdAt : Int
  deriving DecidableEq, Repr

def PublishRequest.event (request : PublishRequest) (id : Nat) : RealtimeEvent where
  id := id
  eventUuid := request.eventUuid
  recipientUserId := request.recipientUserId
  type := request.type
  scoreId := request.scoreId
  revisionId := request.revisionId
  createdAt := request.createdAt

structure RealtimeWorld where
  /-- The events that are committed. -/
  events : List RealtimeEvent
  /-- The number that the sequence gives next. -/
  nextId : Nat
  /-- What each transaction has flushed. -/
  transactions : Nat → List RealtimeEvent
  clients : Nat → Option RealtimeClient

inductive RealtimeAction
  | publish (transaction : Nat) (request : PublishRequest)
  | commit (transaction : Nat)
  | rollback (transaction : Nat)
  | cleanupExpiredEvents (cutoff : Int)
  | connect (clientId : Nat) (userId : UserId)
  | fetch (clientId : Nat)
  | emit (clientId : Nat)
  | wake (clientId : Nat) (timeout : Bool)
  | disconnect (clientId : Nat)
  | reconnect (clientId : Nat)
  deriving DecidableEq, Repr

namespace RealtimeWorld

variable (service : RealtimeService) (world : RealtimeWorld)

/-- `publish_event`: the flush gives the event its number. -/
def publishEvent (transaction : Nat) (request : PublishRequest) : RealtimeWorld :=
  { world with
    nextId := world.nextId + 1
    transactions := Function.update world.transactions transaction
      (world.transactions transaction ++ [request.event world.nextId]) }

/-- The events become visible, and the listeners are notified. -/
def commit (transaction : Nat) : RealtimeWorld :=
  let flushed := world.transactions transaction
  let payloads := if service.supportsPostgresNotify then flushed.map notificationPayload else []
  { world with
    events := world.events ++ flushed
    transactions := Function.update world.transactions transaction []
    clients := fun clientId => (world.clients clientId).map (·.notify payloads) }

def rollback (transaction : Nat) : RealtimeWorld :=
  { world with transactions := Function.update world.transactions transaction [] }

/-- `cleanup_expired_events` -/
def cleanupExpiredEvents (cutoff : Int) : RealtimeWorld :=
  { world with events := world.events.filter fun event => ¬event.createdAt < cutoff }

def setClient (clientId : Nat) (client : RealtimeClient) : RealtimeWorld :=
  { world with clients := Function.update world.clients clientId (some client) }

/-- A client goes on. -/
def withClient (clientId : Nat) (f : RealtimeClient → Option RealtimeClient) :
    Option RealtimeWorld :=
  (world.clients clientId).bind fun client => (f client).map (world.setClient clientId)

def next : RealtimeAction → Option RealtimeWorld
  | .publish transaction request => some (world.publishEvent transaction request)
  | .commit transaction => some (world.commit service transaction)
  | .rollback transaction => some (world.rollback transaction)
  | .cleanupExpiredEvents cutoff => some (world.cleanupExpiredEvents cutoff)
  | .connect clientId userId =>
    match world.clients clientId with
    | none => some (world.setClient clientId (RealtimeClient.connected ⟨userId, [], .closed, 0⟩))
    | some _ => none
  | .fetch clientId => world.withClient clientId (·.fetch service world.events)
  | .emit clientId => world.withClient clientId (·.emit)
  | .wake clientId timeout => world.withClient clientId (·.wake timeout)
  | .disconnect clientId => world.withClient clientId (·.disconnect)
  | .reconnect clientId => world.withClient clientId (·.reconnect)

def Step (world : RealtimeWorld) (action : RealtimeAction) (world' : RealtimeWorld) : Prop :=
  world.next service action = some world'

end RealtimeWorld

end NoteVerse.Backend
