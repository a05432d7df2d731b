import Stanzas.Files.Tree
import Stanzas.Json.Forms
import Stanzas.Main
import Stanzas.Proofs.Line
import Stanzas.Proofs.Line.Grammar
import Stanzas.Proofs.Text.Lines
import Stanzas.Proofs.Document
import Stanzas.Proofs.Patch
import Stanzas.Proofs.Plan
import Stanzas.Proofs.Scope.Places
import Stanzas.Proofs.Plan.Attribute
import Stanzas.Proofs.Plan.WholeScope
import Stanzas.Proofs.Intent
import Stanzas.Proofs.Intent.NormalForm
import Stanzas.Proofs.Plan.Values
import Stanzas.Proofs.Plan.Fits
import Stanzas.Proofs.Plan.Holds
import Stanzas.Proofs.Edit
import Stanzas.Proofs.Edit.Mark
import Stanzas.Proofs.Edit.Changed
import Stanzas.Proofs.Plan.Several
import Stanzas.Proofs.Edit.Interleaved
import Stanzas.Proofs.Files.Path
import Stanzas.Proofs.Files.Walk
import Stanzas.Proofs.Files.Grow
import Stanzas.Proofs.Files.Stage
import Stanzas.Proofs.Destination
import Stanzas.Proofs.Files.Place
import Stanzas.Proofs.Destination.Clients
import Stanzas.Proofs.Files.Copy
import Stanzas.Proofs.Request.Check
import Stanzas.Proofs.Request.Again
import Stanzas.Proofs.Request.Spared
import Stanzas.Proofs.Request.Report
import Stanzas.Proofs.Document.Lossless
import Stanzas.Proofs.Scope.Index
import Stanzas.Proofs.Plan.Section
import Stanzas.Proofs.Plan.Commute
import Stanzas.Proofs.Plan.Reconcile
import Stanzas.Proofs.Patch.Numbers
import Stanzas.Proofs.Patch.Steps
import Stanzas.Proofs.Plan.Stay
import Stanzas.Proofs.Plan.Append
import Stanzas.Proofs.Plan.Remove
import Stanzas.Proofs.Plan.Describe
import Stanzas.Proofs.Edit.Ending
import Stanzas.Proofs.Intent.StanzaName
import Stanzas.Proofs.Edit.Style
import Stanzas.Proofs.Plan.Order
import Stanzas.Proofs.Plan.RoundTrip
import Stanzas.Proofs.Files.Mode
import Stanzas.Proofs.Destination.Mode
import Stanzas.Proofs.Destination.Failed
import Stanzas.Proofs.Patch.Table
import Stanzas.Proofs.Scope.Pass
