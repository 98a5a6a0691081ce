import NoteVerse.Lib.Computable
import NoteVerse.Lib.Transition
import NoteVerse.Lib.DoubleLink
import NoteVerse.Lib.Js
import NoteVerse.Editor.Model
import NoteVerse.Editor.Commands
import NoteVerse.Editor.Ties
import NoteVerse.Backend.StorageUsage
import NoteVerse.Backend.StorageAccounting
import NoteVerse.Backend.StorageReservations
import NoteVerse.Backend.Scores
import NoteVerse.Backend.ScoreAccess
import NoteVerse.Backend.AccessPolicy
import NoteVerse.Backend.Revisions
import NoteVerse.Backend.RevisionHistory
import NoteVerse.Backend.Uploads
import NoteVerse.Backend.ImportDispatch
import NoteVerse.Backend.Realtime
import NoteVerse.Backend.RealtimeDelivery
import NoteVerse.Backend.ReviewConfirm
import NoteVerse.Backend.ReviewConfirmed
import NoteVerse.Backend.ReviewSteps
import NoteVerse.Backend.ImportLifecycle
import NoteVerse.Backend.ImportProgress
import NoteVerse.Backend.BlobReferences
import NoteVerse.Backend.BlobRuns
import NoteVerse.Backend.Blobs
import NoteVerse.Backend.DeliveryPolicy
import NoteVerse.Backend.Outbox
import NoteVerse.Backend.OutboxSteps
import NoteVerse.Backend.OutboxFencing
import NoteVerse.Backend.OutboxProgress
import NoteVerse.Backend.MailOutbox
import NoteVerse.Backend.MailTerminal
import NoteVerse.Editor.MusicXmlExporter
import NoteVerse.Lib.JsMap
import NoteVerse.Backend.FolderTree
import NoteVerse.Backend.Library
import NoteVerse.Backend.LibraryCommits
import NoteVerse.Backend.LibraryRuns
import NoteVerse.Lib.Forest
import NoteVerse.Lib.Stopwatch
import NoteVerse.Practice.Timeline
import NoteVerse.Practice.ScopeClock
import NoteVerse.Practice.ServerClock
import NoteVerse.Practice.ClockAgreement
import NoteVerse.Lib.Keyset
import NoteVerse.Lib.Lists
import NoteVerse.Editor.MusicXmlImporter
import NoteVerse.Editor.ExportedScore
import NoteVerse.Editor.ExportedNotes
import NoteVerse.Editor.ImportedEvents
import NoteVerse.Editor.ImportSuccess
import NoteVerse.Editor.ExportedMarks
import NoteVerse.Editor.ExportedParts
import NoteVerse.Editor.ReadExport
import NoteVerse.Editor.RoundTrip
import NoteVerse.Practice.BrowserClock
import NoteVerse.Practice.CaptureTime
import NoteVerse.Practice.SessionRuntime
import NoteVerse.Practice.Polling
import NoteVerse.Practice.PerformanceStream
import NoteVerse.Practice.StreamClock
import NoteVerse.Practice.StreamReports
import NoteVerse.Practice.Artifact
import NoteVerse.Practice.StepRuns
import NoteVerse.Lib.Rounding
import NoteVerse.Practice.BrowserEvaluator
import NoteVerse.Practice.ServerEvaluator
import NoteVerse.Practice.EvaluatorAgreement
import NoteVerse.Lib.FloatText
import NoteVerse.Lib.Grouping
import NoteVerse.Practice.ScoreMetadata
import NoteVerse.Practice.ScoreTimeline
import NoteVerse.Practice.TimelineEvents
import NoteVerse.Practice.FollowPolicy
import NoteVerse.Practice.ScoreArtifact
import NoteVerse.Practice.TimelineGroups
import NoteVerse.Practice.TimelinePairing
import NoteVerse.Practice.Attempts
import NoteVerse.Practice.StepPolicy
import NoteVerse.Practice.MidiEngine
import NoteVerse.Practice.MidiRuns
import NoteVerse.Practice.StepEngine
import NoteVerse.Practice.StepEngineRuns
import NoteVerse.Editor.DerivedGaps
import NoteVerse.Editor.BeamContexts
import NoteVerse.Editor.BeamUpdates
import NoteVerse.Acoustic.LiveCapture
import NoteVerse.Acoustic.RollingPipeline
import NoteVerse.Acoustic.CaptureLifecycle
import NoteVerse.Acoustic.LiveWindows
import NoteVerse.Practice.PerformanceRuntime
import NoteVerse.Practice.ClockRestore
import NoteVerse.Practice.PerformanceRestore
import NoteVerse.Lib.FreshName
import NoteVerse.Lib.XmlAddress
import NoteVerse.MusicXml.NoteIds
import NoteVerse.MusicXml.NoteIdAgreement
import NoteVerse.Practice.SessionRequests
import NoteVerse.Practice.ReplayFinalize
import NoteVerse.Practice.SessionInterleaving
import NoteVerse.Backend.Publications
import NoteVerse.Backend.PublishedView
import NoteVerse.Backend.PublicationRuns
import NoteVerse.Backend.InviteRuns
import NoteVerse.Backend.RepeatedSaves
import NoteVerse.Practice.MidiEvidence
import NoteVerse.Practice.MeterSegments
import NoteVerse.Lib.PiecewiseLinear
import NoteVerse.Practice.TempoTimeline
import NoteVerse.Practice.ScopeProjection
import NoteVerse.Practice.TimelineMaps
import NoteVerse.Practice.ExpectedTimes
import NoteVerse.Backend.UploadFailures
import NoteVerse.Backend.RenderReplacement
import NoteVerse.Backend.RenderRuns
import NoteVerse.Backend.RenderCleanup
import NoteVerse.Editor.ImportedNotes
import NoteVerse.Editor.ExportedTexts
import NoteVerse.Editor.NotationRoundTrip
import NoteVerse.Editor.CommandErrors
import NoteVerse.Editor.Removals
import NoteVerse.Lib.UndoStack
import NoteVerse.Editor.History
import NoteVerse.MusicXml.RenderIds
import NoteVerse.Acoustic.StepEvents
import NoteVerse.Acoustic.StepWindows
import NoteVerse.Editor.RhythmicInput
import NoteVerse.Editor.InsertPlacement
import NoteVerse.Editor.AddMode
import NoteVerse.Editor.InspectorDrafts
import NoteVerse.Editor.InspectorEdits
import NoteVerse.MusicXml.FlattenKeeps
import NoteVerse.Editor.GridSnap
import NoteVerse.Acoustic.ResamplerRuns
import NoteVerse.Acoustic.EventWindows
import NoteVerse.Acoustic.Decoder
import NoteVerse.MusicXml.Backup
import NoteVerse.MusicXml.BackupRuns
import NoteVerse.MusicXml.Metadata
import NoteVerse.MusicXml.MetadataReading
import NoteVerse.MusicXml.PlaybackOrder
import NoteVerse.MusicXml.PlaybackDuration
import NoteVerse.Backend.BeatLeader
