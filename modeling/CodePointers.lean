import CodePointers.Main
import CodePointers.Notification
import CodePointers.SampleWorkspace
import CodePointers.Proofs.Tracker.FirstScan
import CodePointers.Proofs.Tracker.FolderRemoval
import CodePointers.Proofs.Tracker.Requests
import CodePointers.Proofs.Disk.Places
import CodePointers.Proofs.Disk.Changes
import CodePointers.Proofs.Resolution.ScannedPointers
import CodePointers.Proofs.Resolution.Targets
import CodePointers.Proofs.Resolution.Preference
import CodePointers.Proofs.Tracker.Removals
import CodePointers.Proofs.Tracker.Rereads
import CodePointers.Proofs.Disk.WorkspaceFiles
import CodePointers.Proofs.Tracker.Histories
import CodePointers.Proofs.Tracker.Events
import CodePointers.Proofs.ReferenceIndex.Files
import CodePointers.Proofs.Tracker.Anchors
import CodePointers.Proofs.Tracker.Outlines
import CodePointers.Proofs.Tracker.ChangedSources
import CodePointers.Proofs.Tracker.Trails
import CodePointers.Proofs.Tracker.LastReferences
import CodePointers.Proofs.Tracker.Currency
import CodePointers.Proofs.Tracker.CachedTexts
import CodePointers.Proofs.Tracker.Likeness
import CodePointers.Proofs.Tracker.Coalescing
import CodePointers.Proofs.Tracker.Retained
import CodePointers.Proofs.ReferenceIndex.Queries
import CodePointers.Proofs.Pointer.RoundTrip
import CodePointers.Proofs.Resolution.Containment
import CodePointers.Proofs.Tracker.Returns
import CodePointers.Proofs.Tracker.ListedReferences
import CodePointers.Proofs.Resolution.SearchOrder
import CodePointers.Proofs.Resolution.MoreFiles
import CodePointers.Proofs.ReferenceIndex.Invariants
import CodePointers.Proofs.Tracker.StraySources
import CodePointers.Proofs.Tracker.Arrivals
import CodePointers.Proofs.Tracker.ForgottenPaths
import CodePointers.Proofs.Tracker.Reindexing
import CodePointers.Proofs.Tracker.Summaries
import CodePointers.Proofs.Tracker.ScanResults
import CodePointers.Proofs.Tracker.ScanOrder
import CodePointers.Proofs.Tracker.ScannedFiles
import CodePointers.Proofs.Tracker.Counts
import CodePointers.Proofs.Pointer.Acceptance
import CodePointers.Proofs.Pointer.Embedding
import CodePointers.Proofs.Tracker.RepeatedEvents
import CodePointers.Proofs.Tracker.UnheardEvents
import CodePointers.Proofs.Tracker.TextLines
import CodePointers.Proofs.TextCache
import CodePointers.Proofs.SampleWorkspace.Files
