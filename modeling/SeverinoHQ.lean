import SeverinoHQ.Math.Run
import SeverinoHQ.Math.Table
import SeverinoHQ.Math.Fallible
import SeverinoHQ.Math.Serial
import SeverinoHQ.Math.Separated
import SeverinoHQ.Math.Bytes
import SeverinoHQ.Math.Flags
import SeverinoHQ.Math.Dialogue
import SeverinoHQ.Math.Pool
import SeverinoHQ.Math.Binary64
import SeverinoHQ.Math.Datetime
import SeverinoHQ.Math.Paging
import SeverinoHQ.Math.Text
import SeverinoHQ.Math.Shlex
import SeverinoHQ.Math.Task
import SeverinoHQ.Math.Base64
import SeverinoHQ.Math.BlockMapping
import SeverinoHQ.Math.Slots
import SeverinoHQ.Math.Truth
import SeverinoHQ.Math.Dict
import SeverinoHQ.Math.Bucket
import SeverinoHQ.Math.Tally
import SeverinoHQ.Math.Letters
import SeverinoHQ.Math.Document
import SeverinoHQ.Math.Pattern
import SeverinoHQ.Json
import SeverinoHQ.ControlPlane.Model
import SeverinoHQ.ControlPlane.Queue
import SeverinoHQ.ControlPlane.Save
import SeverinoHQ.ControlPlane.Controller
import SeverinoHQ.ControlPlane.Settlement
import SeverinoHQ.ControlPlane.System
import SeverinoHQ.ControlPlane.Transactions
import SeverinoHQ.ControlPlane.Outcomes
import SeverinoHQ.ControlPlane.Generations
import SeverinoHQ.ControlPlane.Switch
import SeverinoHQ.ControlPlane.Leases
import SeverinoHQ.ControlPlane.DesiredState
import SeverinoHQ.ControlPlane.Resolution
import SeverinoHQ.ControlPlane.Dependents
import SeverinoHQ.ControlPlane.Updates
import SeverinoHQ.ControlPlane.Authored
import SeverinoHQ.ControlPlane.Tidy
import SeverinoHQ.ControlPlane.History
import SeverinoHQ.ControlPlane.SecretShapes
import SeverinoHQ.ControlPlane.Struck
import SeverinoHQ.ControlPlane.StruckAgain
import SeverinoHQ.Mask.Striking
import SeverinoHQ.Math.Utf8
import SeverinoHQ.Mask.Clip
import SeverinoHQ.Audit.Changes
import SeverinoHQ.Approvals.Preview
import SeverinoHQ.Tailnet.Moving
import SeverinoHQ.Host.Upgrade.Settling
import SeverinoHQ.Records.Saves
import SeverinoHQ.Records.Fields
import SeverinoHQ.Records.Updates
import SeverinoHQ.Records.Masked
import SeverinoHQ.Capabilities.Idempotency
import SeverinoHQ.Capabilities.Replay
import SeverinoHQ.Capabilities.Once
import SeverinoHQ.Approvals.Model
import SeverinoHQ.Approvals.Decisions
import SeverinoHQ.Approvals.Held
import SeverinoHQ.Approvals.Askers
import SeverinoHQ.Agents.Subjects
import SeverinoHQ.Agents.Brakes
import SeverinoHQ.Agents.Listen
import SeverinoHQ.Agents.Owed
import SeverinoHQ.Agents.Limits
import SeverinoHQ.Agents.AtOnce
import SeverinoHQ.Agents.Rate
import SeverinoHQ.Host.Argv
import SeverinoHQ.Host.ArgvReading
import SeverinoHQ.Host.Unit
import SeverinoHQ.Host.UnitChecks
import SeverinoHQ.Host.Override
import SeverinoHQ.Host.Pinned
import SeverinoHQ.Host.PinnedImage
import SeverinoHQ.Host.Upgrade.Model
import SeverinoHQ.Host.Upgrade.Execution
import SeverinoHQ.Host.Upgrade.Machine
import SeverinoHQ.Host.Upgrade.Readings
import SeverinoHQ.Host.Upgrade.Restore
import SeverinoHQ.Host.Upgrade.Outcomes
import SeverinoHQ.Host.Upgrade.Recording
import SeverinoHQ.Host.Upgrade.Mounts
import SeverinoHQ.Host.Upgrade.Invocation
import SeverinoHQ.Host.Upgrade.Progress
import SeverinoHQ.Host.Upgrade.Once
import SeverinoHQ.Derivations.Clock
import SeverinoHQ.Derivations.Model
import SeverinoHQ.Derivations.Evidence
import SeverinoHQ.Derivations.Told
import SeverinoHQ.Derivations.Answers
import SeverinoHQ.Derivations.Standing
import SeverinoHQ.Derivations.Nesting
import SeverinoHQ.Derivations.Revisions
import SeverinoHQ.Derivations.Keys
import SeverinoHQ.Derivations.Expiry
import SeverinoHQ.Projection.Keyset
import SeverinoHQ.Projection.Pages
import SeverinoHQ.Tailnet.Policy
import SeverinoHQ.Tailnet.Allowing
import SeverinoHQ.Tailnet.Reconcile
import SeverinoHQ.Tailnet.Admitting
import SeverinoHQ.Secrets.Project
import SeverinoHQ.Secrets.AppEnv
import SeverinoHQ.Secrets.Projected
import SeverinoHQ.Secrets.Sealing
import SeverinoHQ.Secrets.SealedSecrets
import SeverinoHQ.Files.Atomicfile
import SeverinoHQ.Files.Placing
import SeverinoHQ.Files.Staging
import SeverinoHQ.Edge.Receiver
import SeverinoHQ.Edge.Deploy
import SeverinoHQ.Providers.Certificates
import SeverinoHQ.Providers.Transaction
import SeverinoHQ.Providers.Restoring
import SeverinoHQ.Providers.Serving
import SeverinoHQ.Providers.Outcomes
import SeverinoHQ.Providers.Lineage
import SeverinoHQ.Math.BigEndian
import SeverinoHQ.Math.Weierstrass
import SeverinoHQ.Providers.Jwk
import SeverinoHQ.Calendars.Page
import SeverinoHQ.Audit.AppendOnly
import SeverinoHQ.Audit.Coalescing
import SeverinoHQ.Audit.Lines
import SeverinoHQ.Contacts.Changes
import SeverinoHQ.Contacts.Inbox
import SeverinoHQ.Dashboard.Glance
import SeverinoHQ.Dashboard.Refresh
import SeverinoHQ.GitHub.Allowance
import SeverinoHQ.GitHub.OthersSpent
import SeverinoHQ.Inventory.Adoption
import SeverinoHQ.Inventory.Keeping
import SeverinoHQ.Inventory.Phases
import SeverinoHQ.Inventory.Sweeping
import SeverinoHQ.Inventory.KeptOut
import SeverinoHQ.Inventory.Commits
import SeverinoHQ.Inventory.Removals
import SeverinoHQ.Inventory.Registry
import SeverinoHQ.Inventory.Sweep
import SeverinoHQ.Jobs.Endings
import SeverinoHQ.Jobs.Runner
import SeverinoHQ.Outside.Connections
import SeverinoHQ.Outside.HttpRead
import SeverinoHQ.Outside.Reach
import SeverinoHQ.Outside.Registry
import SeverinoHQ.Mail.Policy
import SeverinoHQ.Mail.Dmarc
import SeverinoHQ.Mail.Spf
import SeverinoHQ.Network.StrictHost
import SeverinoHQ.Cadence.Asked
import SeverinoHQ.Database.GivesWay
import SeverinoHQ.Derivations.Ahead
import SeverinoHQ.Derivations.Worded
import SeverinoHQ.Calendars.Drawn
import SeverinoHQ.Calendars.Occurrences
import SeverinoHQ.Docs.Pruned
import SeverinoHQ.Docs.Preflight
import SeverinoHQ.Registry.Again
import SeverinoHQ.Pins.Listed
import SeverinoHQ.Signin.Lockout
