import Scaffold.Main
import Scaffold.Storage.Memory
import Scaffold.Proofs.Path.Resolution
import Scaffold.Proofs.Apply.Again
import Scaffold.Proofs.Apply.Compiled
import Scaffold.Proofs.Apply.Order
import Scaffold.Proofs.Placeholder.Matches
import Scaffold.Proofs.Placeholder.Substitution
import Scaffold.Proofs.Placeholder.Leftover
import Scaffold.Proofs.Storage.Edits
import Scaffold.Proofs.Storage.Granted
import Scaffold.Proofs.Storage.Walk
import Scaffold.Proofs.Storage.Trial
import Scaffold.Proofs.Script
import Scaffold.Proofs.CommandLine.Questions
import Scaffold.Proofs.CommandLine.Untouched
import Scaffold.Proofs.CommandLine.Printed
import Scaffold.Proofs.CommandLine.Picking
import Scaffold.Proofs.Storage.Agreement
import Scaffold.Proofs.Shorthand.Expander
import Scaffold.Proofs.Shorthand.Ordering
import Scaffold.Proofs.Shorthand.TwoPaths
import Scaffold.Proofs.Shorthand.Around
import Scaffold.Proofs.Shorthand.Entries
import Scaffold.Proofs.Shorthand.Seam
import Scaffold.Proofs.Shorthand.Separators
import Scaffold.Proofs.Shorthand.Sequence
import Scaffold.Proofs.Shorthand.Connectors
import Scaffold.Proofs.Shorthand.Grouping
import Scaffold.Proofs.Disk.Leads
import Scaffold.Proofs.Disk.Reach
import Scaffold.Proofs.Storage.Confined
import Scaffold.Proofs.Storage.Boundary
import Scaffold.Proofs.Storage.Isolation
import Scaffold.Proofs.Storage.Inside
import Scaffold.Proofs.Disk.Again
import Scaffold.Proofs.Json.RoundTrip
import Scaffold.Proofs.Store.Scripts
import Scaffold.Proofs.Store.File
import Scaffold.Proofs.Store.Sessions
import Scaffold.Proofs.Store.Recall
import Scaffold.Proofs.Template
