import VkSandbox.Machinery.Prog
import VkSandbox.Machinery.RelyGuarantee
import VkSandbox.Machinery.Journal
import VkSandbox.Machinery.Performs
import VkSandbox.Machinery.Solo
import VkSandbox.Machinery.Table
import VkSandbox.Machinery.Sorting
import VkSandbox.Machinery.Locking
import VkSandbox.Machinery.Simulation
import VkSandbox.Machinery.Sessions
import VkSandbox.Machinery.Json
import VkSandbox.Provider.Types
import VkSandbox.Provider.Ownership
import VkSandbox.Provider.Status
import VkSandbox.Provider.Timestamps
import VkSandbox.Provider.StateFormat
import VkSandbox.Provider.Memory
import VkSandbox.Provider.RangeLoops
import VkSandbox.Provider.Sections
import VkSandbox.Provider.Programs
import VkSandbox.Provider.System
import VkSandbox.Provider.Outline
import VkSandbox.Provider.Steps
import VkSandbox.Provider.Keeps
import VkSandbox.Provider.Interference
import VkSandbox.Provider.Rules
import VkSandbox.Provider.Saving
import VkSandbox.Provider.Lifecycle
import VkSandbox.Provider.Loops
import VkSandbox.Provider.Soundness
import VkSandbox.Provider.Effects
import VkSandbox.Provider.Journals
import VkSandbox.Provider.Entries
import VkSandbox.Provider.Requests
import VkSandbox.Provider.Retoken
import VkSandbox.Provider.Releases
import VkSandbox.Properties.Scenario
import VkSandbox.Properties.Conservation
import VkSandbox.Properties.Durability
import VkSandbox.Properties.StateWrites
import VkSandbox.Properties.Versions
import VkSandbox.Properties.Authority
import VkSandbox.Properties.Bindings
import VkSandbox.Properties.Generations
import VkSandbox.Properties.Leases
import VkSandbox.Properties.Succession
import VkSandbox.Properties.Expiry
import VkSandbox.Properties.Rechecks
import VkSandbox.Properties.Backoff
import VkSandbox.Properties.Plurals
import VkSandbox.Properties.Tracking
import VkSandbox.Properties.StartTimes
import VkSandbox.Properties.Scans
import VkSandbox.Properties.Startup
import VkSandbox.Properties.Rejections
import VkSandbox.Properties.Drains
import VkSandbox.Properties.Markers
import VkSandbox.Properties.Quarantine
import VkSandbox.Properties.Preservation
import VkSandbox.Properties.Lineage
import VkSandbox.Properties.Replacement
import VkSandbox.Properties.Progress
import VkSandbox.Properties.Secrecy
import VkSandbox.Properties.Reuse
import VkSandbox.Properties.Custody
import VkSandbox.Properties.ScanReports
import VkSandbox.Properties.Sessions
import VkSandbox.Properties.Unreadable
import VkSandbox.Properties.Reads
import VkSandbox.Properties.FileFormat
import VkSandbox.Inventory.LiveSource
import VkSandbox.Inventory.Publisher
import VkSandbox.Properties.Provenance
