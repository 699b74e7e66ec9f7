import Dissection.Json.Reader
import Dissection.Main
import Dissection.Proofs.Toml.Spelling
import Dissection.Proofs.Handling
import Dissection.Proofs.History
import Dissection.Proofs.Toggling
import Dissection.Proofs.NameResolution
import Dissection.Proofs.TimeStamp
import Dissection.Proofs.DecodeAs
import Dissection.Proofs.Config.Faults
import Dissection.Proofs.Config.Loading
import Dissection.Proofs.Config.Roster
import Dissection.Proofs.Config.Malformed
import Dissection.Proofs.CommandLine.Progress
import Dissection.Proofs.CommandLine.Grammar
import Dissection.Proofs.CommandLine.Acceptance
import Dissection.Proofs.CommandLine.Spelling
import Dissection.Proofs.CommandLine.Containment
import Dissection.Proofs.Resolve.Outcome
import Dissection.Proofs.Json.Printer
import Dissection.Proofs.Registry
import Dissection.Proofs.Registry.Applied
import Dissection.Proofs.Resolve.Document
import Dissection.Proofs.Resolve.Reordering
import Dissection.Proofs.Json.Roundtrip
import Dissection.Proofs.Resolve.Printed
import Dissection.Proofs.Config.Written
