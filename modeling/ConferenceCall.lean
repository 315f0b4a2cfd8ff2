import ConferenceCall.Session.Atomicity
import ConferenceCall.Session.Candidates
import ConferenceCall.Session.Channels
import ConferenceCall.Session.Closed
import ConferenceCall.Session.Deadlock
import ConferenceCall.Session.Delivery
import ConferenceCall.Session.Independence
import ConferenceCall.Session.Leave
import ConferenceCall.Session.Ownership
import ConferenceCall.Session.Plays
import ConferenceCall.Session.Rejoin
import ConferenceCall.Session.Setters
import ConferenceCall.Session.Talk
import ConferenceCall.Library.Calendar
import ConferenceCall.Library.Decimal
import ConferenceCall.Log.Clock
import ConferenceCall.Library.Disk
import ConferenceCall.Library.Program
import ConferenceCall.Log.System
import ConferenceCall.Log.Names
import ConferenceCall.Library.Word
import ConferenceCall.Log.Rotation
import ConferenceCall.Log.Days
import ConferenceCall.Log.Ageing
import ConferenceCall.Log.Rotated
import ConferenceCall.Log.Generations
import ConferenceCall.Log.Newest
import ConferenceCall.Log.Faults
import ConferenceCall.Log.Survival
import ConferenceCall.Log.Reading
import ConferenceCall.Log.Interrupted
import ConferenceCall.Log.Retention
import ConferenceCall.Log.Retained
import ConferenceCall.Console
import ConferenceCall.Log.Oldest
import ConferenceCall.Signaling.Encoding
import ConferenceCall.Session.Chat
import ConferenceCall.Manager.RecvTracks
import ConferenceCall.Gst.Pipelines
import ConferenceCall.Gst.Playing
import ConferenceCall.Gst.MainLoop
import ConferenceCall.Session.Alive
import ConferenceCall.Library.Guarded
import ConferenceCall.Log.Callers
import ConferenceCall.Log.Beside
import ConferenceCall.Log.Lossless
import ConferenceCall.Library.Accounts
import ConferenceCall.Log.Deletion
import ConferenceCall.Library.Tree
import ConferenceCall.Log.Mkdirs
import ConferenceCall.Log.Footprint
import ConferenceCall.Session.Configuration
import ConferenceCall.Session.Senders
import ConferenceCall.Log.Separate
import ConferenceCall.Log.Archives
import ConferenceCall.Log.Passes
import ConferenceCall.Library.Loop
import ConferenceCall.Log.Retry
import ConferenceCall.Library.Fair
import ConferenceCall.Log.Changes
import ConferenceCall.Log.Quota
import ConferenceCall.Log.Tending
import ConferenceCall.Log.Convergence
import ConferenceCall.Log.Held
import ConferenceCall.Log.Kept
import ConferenceCall.Log.Conserved
import ConferenceCall.Log.Marks
import ConferenceCall.Log.FreeNames
import ConferenceCall.Library.Positions
import ConferenceCall.Library.Component
import ConferenceCall.Manager.Course
import ConferenceCall.Session.Remote
import ConferenceCall.Session.Streams
import ConferenceCall.Library.Holdings
import ConferenceCall.Gst.References
import ConferenceCall.Gst.Ownership
import ConferenceCall.Session.Connections
import ConferenceCall.Main.Lines
import ConferenceCall.Main.Service
import ConferenceCall.Library.Turns
import ConferenceCall.Main.Ending
import ConferenceCall.Main.Threads
import ConferenceCall.Library.Since
import ConferenceCall.Media.Studio
import ConferenceCall.Media.Tracks
import ConferenceCall.Media.Sessions
import ConferenceCall.Media.Wiring
import ConferenceCall.Media.Routes
import ConferenceCall.Media.Captures
import ConferenceCall.Media.Captures
import ConferenceCall.Log.FreeNames
