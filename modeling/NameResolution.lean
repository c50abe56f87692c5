import NameResolution.Document.Forms
import NameResolution.Settings.ResolvConf
import NameResolution.Simulation.Bench
import NameResolution.Simulation.World
import NameResolution.Proofs.Codec.Reading
import NameResolution.Proofs.Codec.Spelling
import NameResolution.Proofs.Codec.Writing
import NameResolution.Proofs.Codec.Names
import NameResolution.Proofs.Codec.Grammar
import NameResolution.Proofs.Codec.Drafts
import NameResolution.Proofs.Codec.Records
import NameResolution.Proofs.Codec.RoundTrip
import NameResolution.Proofs.Codec.Truncation
import NameResolution.Proofs.Codec.Presentation
import NameResolution.Proofs.Codec.FlatNames
import NameResolution.Proofs.Codec.Makings
import NameResolution.Proofs.Operations
import NameResolution.Proofs.Query.Correlation
import NameResolution.Proofs.Query.Allocation
import NameResolution.Proofs.Resolution.Spending
import NameResolution.Proofs.Resolution.Calls
import NameResolution.Proofs.Resolution.Steps
import NameResolution.Proofs.Resolution.Referrals
import NameResolution.Proofs.Resolution.Duties
import NameResolution.Proofs.Resolution.Lookups
import NameResolution.Proofs.Resolution.Strides
import NameResolution.Proofs.Resolution.CallWork
import NameResolution.Proofs.Resolution.CallInvariants
import NameResolution.Proofs.Resolution.Histories
import NameResolution.Proofs.Cache.Store
import NameResolution.Proofs.Cache.Reading
import NameResolution.Proofs.Cache.Writes
import NameResolution.Proofs.Cache.Messages
import NameResolution.Proofs.Cache.Runs
import NameResolution.Proofs.Cache.Provenance
import NameResolution.Proofs.Cache.Eviction
import NameResolution.Proofs.Cache.Persistence
import NameResolution.Proofs.Names
import NameResolution.Proofs.RecordSets
import NameResolution.Proofs.Cache.Trails
import NameResolution.Proofs.Cache.Filling
import NameResolution.Proofs.Cache.Views
import NameResolution.Proofs.Cache.Entitlement
import NameResolution.Proofs.Cache.Fresh
import NameResolution.Proofs.Cache.Results
import NameResolution.Proofs.Cache.Chains
import NameResolution.Proofs.Cache.Table
import NameResolution.Proofs.Cache.Refinement
import NameResolution.Proofs.Cache.Precedence
import NameResolution.Proofs.Resolution.Redirections
import NameResolution.Proofs.Resolution.Recall
import NameResolution.Proofs.Settings
import NameResolution.Proofs.Cache.Soundness
import NameResolution.Proofs.Resolution.Outcomes
import NameResolution.Proofs.Resolution.AliasPaths
import NameResolution.Proofs.Resolution.Soundness
import NameResolution.Proofs.Resolution.Safety
import NameResolution.Proofs.Resolution.Systems
import NameResolution.Proofs.Cache.Tidy
import NameResolution.Proofs.Resolution.Evidence
import NameResolution.Proofs.Resolution.Upkeep
import NameResolution.Proofs.Resolution.Backing
import NameResolution.Proofs.Query.Custody
import NameResolution.Proofs.Resolution.Regimes
import NameResolution.Proofs.Resolution.Conduct
import NameResolution.Proofs.Resolution.Registrations
import NameResolution.Proofs.Resolution.Closing
import NameResolution.Proofs.Resolution.Finality
import NameResolution.Proofs.Cache.Classes
import NameResolution.Proofs.Resolution.Classes
import NameResolution.Proofs.Cache.Denials
import NameResolution.Proofs.Cache.Retention
import NameResolution.Proofs.Cache.Zones
import NameResolution.Proofs.Cache.Glue
import NameResolution.Proofs.Resolution.Horizons
import NameResolution.Proofs.Resolution.Contacts
import NameResolution.Proofs.Resolution.Searches
import NameResolution.Proofs.HostTables
import NameResolution.Proofs.Resolution.Families
import NameResolution.Proofs.Resolution.Preferences
import NameResolution.Proofs.Resolution.Courses
import NameResolution.Proofs.Resolution.Rotation
import NameResolution.Proofs.Resolution.Series
import NameResolution.Proofs.Resolution.Refusals
import NameResolution.Proofs.Resolution.PassRefusals
import NameResolution.Proofs.Resolution.Exhaustion
import NameResolution.Proofs.Resolution.CallRefusals
import NameResolution.Proofs.Resolution.AliasChains
import NameResolution.Proofs.Resolution.ChainRecall
import NameResolution.Proofs.Resolution.WarmLookups
import NameResolution.Proofs.Cache.Accounts
import NameResolution.Proofs.Cache.ClosestZones
import NameResolution.Proofs.Cache.Accesses
import NameResolution.Proofs.Cache.Recency
import NameResolution.Proofs.Names.Order
import NameResolution.Proofs.Names.Rewriting
import NameResolution.Proofs.CanonicalNames
import NameResolution.Proofs.Grouping
import NameResolution.Proofs.Text.Numbers
import NameResolution.Proofs.Text.Lines
import NameResolution.Proofs.Addresses
import NameResolution.Proofs.Settings.Files
import NameResolution.Proofs.HostLines
import NameResolution.Proofs.Settings.Origins
import NameResolution.Proofs.Resolution.SearchLists
import NameResolution.Proofs.Cache.Positions
import NameResolution.Proofs.Cache.LastWrites
import NameResolution.Proofs.Cache.Representation
