import SandboxFetch.Text.Split
import SandboxFetch.Dict
import SandboxFetch.Version
import SandboxFetch.Json.Writing
import SandboxFetch.Json.Record
import SandboxFetch.Timestamp.Rfc3339
import SandboxFetch.Xml.Reference
import SandboxFetch.Xml.Event
import SandboxFetch.Path
import SandboxFetch.Selection
import SandboxFetch.ChangeSet
import SandboxFetch.Configuration.Json
import SandboxFetch.LoadRule.Table
import SandboxFetch.LoadRule.Gate
import SandboxFetch.Load.Layout
import SandboxFetch.Load.Digest
import SandboxFetch.Report.Building
import SandboxFetch.ChangeLog.Reading
import SandboxFetch.Properties
import SandboxFetch.Disk.Tree
import SandboxFetch.Disk.Basic
import SandboxFetch.Disk.Removing
import SandboxFetch.Repository.Basic
import SandboxFetch.Fetch.Running
import SandboxFetch.ChangeLog.File
import SandboxFetch.CommandLine.Running
import SandboxFetch.Main
import SandboxFetch.Proofs.Steps
import SandboxFetch.Proofs.Repository.Operations
import SandboxFetch.Proofs.Repository.Building
import SandboxFetch.Proofs.Repository.History
import SandboxFetch.Proofs.Repository.Ledger
import SandboxFetch.Proofs.Fetch.Stages
import SandboxFetch.Proofs.Dict
import SandboxFetch.Proofs.Properties
import SandboxFetch.Proofs.Report.Grouping
import SandboxFetch.Proofs.Fetch.Rescoping
import SandboxFetch.Proofs.Fetch.Accounting
import SandboxFetch.Proofs.ChangeLog.Scanning
import SandboxFetch.Proofs.Timestamp.Text
import SandboxFetch.Proofs.ChangeLog.Elements
import SandboxFetch.Proofs.ChangeLog.RoundTrip
import SandboxFetch.Proofs.Disk.Walking
import SandboxFetch.Proofs.Disk.Making
import SandboxFetch.Proofs.Component.Choosing
import SandboxFetch.Proofs.Load.Listing
import SandboxFetch.Proofs.Fetch.Exactness
import SandboxFetch.Proofs.Repository.Lasting
import SandboxFetch.Proofs.Fetch.Lasting
import SandboxFetch.Proofs.Fetch.Pending
import SandboxFetch.Proofs.Fetch.Order
import SandboxFetch.Proofs.ChangeLog.Taking
import SandboxFetch.Proofs.ChangeLog.Torn
import SandboxFetch.Proofs.ChangeLog.Image
import SandboxFetch.Proofs.Xml.Nesting
import SandboxFetch.Proofs.ChangeLog.Counting
import SandboxFetch.Proofs.Path.Lexical
import SandboxFetch.Proofs.Disk.Repeating
import SandboxFetch.Proofs.Disk.Touching
import SandboxFetch.Proofs.Load.Forward
import SandboxFetch.Proofs.Fetch.Repeating
import SandboxFetch.Proofs.Fetch.Personal
import SandboxFetch.Proofs.Load.Containment
import SandboxFetch.Proofs.Load.Folders
import SandboxFetch.Proofs.Report.NetChanges
import SandboxFetch.Proofs.LoadRule.Holders
import SandboxFetch.Proofs.LoadRule.Contributing
import SandboxFetch.Proofs.Fetch.Gating
import SandboxFetch.Proofs.Text.Utf8
import SandboxFetch.Proofs.Text.Ends
import SandboxFetch.Proofs.Load.Selecting
import SandboxFetch.Proofs.LoadRule.Marks
import SandboxFetch.Proofs.Load.Overwriting
import SandboxFetch.Proofs.Xml.Tags
import SandboxFetch.Proofs.LoadRule.Writing
import SandboxFetch.Proofs.Disk.Removing
import SandboxFetch.Proofs.Disk.Stopping
import SandboxFetch.Proofs.Fetch.Clearing
import SandboxFetch.Proofs.Host
import SandboxFetch.Proofs.Load.Destination
import SandboxFetch.Proofs.Load.Identifying
import SandboxFetch.Proofs.Repository.Naming
import SandboxFetch.Proofs.Fetch.Emitting
import SandboxFetch.Proofs.Version
import SandboxFetch.Proofs.LoadRule.Grammar
import SandboxFetch.Proofs.Load.Offending
import SandboxFetch.Proofs.Text.Numeral
import SandboxFetch.Proofs.Json.Text
import SandboxFetch.Proofs.Json.Record
import SandboxFetch.Proofs.Json.Shortening
import SandboxFetch.Proofs.Configuration.Json
import SandboxFetch.Proofs.CommandLine.Json
