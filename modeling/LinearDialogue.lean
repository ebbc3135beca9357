import LinearDialogue.Act
import LinearDialogue.Action
import LinearDialogue.Audio
import LinearDialogue.Authored.Desk
import LinearDialogue.Authored.Document
import LinearDialogue.Authored.FreshId
import LinearDialogue.Authored.Graph
import LinearDialogue.Authored.Label
import LinearDialogue.Authored.Validation
import LinearDialogue.Binary64
import LinearDialogue.Binary64.Notation
import LinearDialogue.Binary64.Reading
import LinearDialogue.Binary64.Shortest
import LinearDialogue.Booth
import LinearDialogue.Bus
import LinearDialogue.Bus.Delivery
import LinearDialogue.Compiled.Compilation
import LinearDialogue.Compiled.Cycle
import LinearDialogue.Compiled.Fields
import LinearDialogue.Compiled.Persistence
import LinearDialogue.Compiled.Problem
import LinearDialogue.Compiled.Record
import LinearDialogue.Compiled.Shape
import LinearDialogue.Director
import LinearDialogue.Event
import LinearDialogue.Exchange
import LinearDialogue.Failure
import LinearDialogue.Files.Database
import LinearDialogue.Files.Disk
import LinearDialogue.Files.Documents
import LinearDialogue.Files.Path
import LinearDialogue.Importer
import LinearDialogue.Input
import LinearDialogue.Issue
import LinearDialogue.Journal
import LinearDialogue.Json.Fault
import LinearDialogue.Json.Printer
import LinearDialogue.Json.Reader
import LinearDialogue.Log
import LinearDialogue.Playback
import LinearDialogue.Program
import LinearDialogue.Recital
import LinearDialogue.Settings
import LinearDialogue.Stage
import LinearDialogue.Text.DecimalDigit
import LinearDialogue.Text.Printable
import LinearDialogue.Text.Quoted
import LinearDialogue.Text.Uppercase
import LinearDialogue.Text.WhiteSpace
import LinearDialogue.Value
import LinearDialogue.Value.Text
import LinearDialogue.Volume
import LinearDialogue.Workshop
import LinearDialogue.Proofs.Registrations
import LinearDialogue.Proofs.Moves
import LinearDialogue.Proofs.Rounds
import LinearDialogue.Proofs.Acts
import LinearDialogue.Proofs.Visits
import LinearDialogue.Proofs.Deliveries
import LinearDialogue.Proofs.Exchanges
import LinearDialogue.Proofs.Dispatching
import LinearDialogue.Proofs.OneShots
import LinearDialogue.Proofs.Lifetimes
import LinearDialogue.Proofs.Turns
import LinearDialogue.Proofs.PriorityOrder
import LinearDialogue.Proofs.Successors
import LinearDialogue.Proofs.Loops
import LinearDialogue.Proofs.RecordTables
import LinearDialogue.Proofs.Recitals
import LinearDialogue.Proofs.LoopAgreement
import LinearDialogue.Proofs.Supersession
import LinearDialogue.Proofs.Lifecycle
import LinearDialogue.Proofs.AuthoredGraphs
import LinearDialogue.Proofs.NodeDocuments
import LinearDialogue.Proofs.Scripts
import LinearDialogue.Proofs.Rereading
import LinearDialogue.Proofs.ConnectionPoints
import LinearDialogue.Proofs.Fields
import LinearDialogue.Proofs.Lowering
import LinearDialogue.Proofs.Refusals
import LinearDialogue.Proofs.CompiledPlayback
import LinearDialogue.Proofs.ValidGraphs
import LinearDialogue.Proofs.UnreachableLoops
import LinearDialogue.Proofs.Compilability
import LinearDialogue.Proofs.Reordering
import LinearDialogue.Proofs.MemberEdges
import LinearDialogue.Proofs.CompiledChains
import LinearDialogue.Proofs.JsonScalars
import LinearDialogue.Proofs.JsonRoundTrip
import LinearDialogue.Proofs.JsonFaults
import LinearDialogue.Proofs.Shapes
import LinearDialogue.Proofs.PersistedGraphs
import LinearDialogue.Proofs.PersistedFormat
import LinearDialogue.Proofs.Loading
import LinearDialogue.Proofs.Disks
import LinearDialogue.Proofs.Imports
import LinearDialogue.Proofs.Voices
import LinearDialogue.Proofs.Directing
import LinearDialogue.Proofs.Guests
import LinearDialogue.Proofs.Dialogues
import LinearDialogue.Proofs.Performances
import LinearDialogue.Proofs.ImportedDialogues
import LinearDialogue.Proofs.Presses
import LinearDialogue.Proofs.Operations
import LinearDialogue.Proofs.Listening
import LinearDialogue.Proofs.LatePresses
import LinearDialogue.Proofs.Onlookers
import LinearDialogue.Proofs.Updates
import LinearDialogue.Proofs.Frames
import LinearDialogue.Proofs.Casts
import LinearDialogue.Proofs.Awaiting
import LinearDialogue.Proofs.Chaining
import LinearDialogue.Proofs.KeyTables
import LinearDialogue.Proofs.Keyboards
import LinearDialogue.Proofs.HeldActions
import LinearDialogue.Proofs.StuckActions
import LinearDialogue.Proofs.KeyedGraphs
import LinearDialogue.Proofs.LineLoops
import LinearDialogue.Proofs.ImportOutcomes
import LinearDialogue.Proofs.FirstLoops
import LinearDialogue.Proofs.ExactIssues
import LinearDialogue.Proofs.Verdicts
import LinearDialogue.Proofs.AudioSessions
import LinearDialogue.Proofs.FramePresses
import LinearDialogue.Proofs.Fallbacks
import LinearDialogue.Proofs.Substitution
import LinearDialogue.Proofs.ImportedSources
import LinearDialogue.Proofs.ClipTurns
import LinearDialogue.Proofs.HeardLines
