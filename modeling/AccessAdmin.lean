import AccessAdmin.AncestorPath
import AccessAdmin.Changeset
import AccessAdmin.Code
import AccessAdmin.Config
import AccessAdmin.Crypto.Argon2
import AccessAdmin.Crypto.Blake2b
import AccessAdmin.Crypto.PasswordHash
import AccessAdmin.Crypto.Seeded
import AccessAdmin.Crypto.Sha384
import AccessAdmin.Crypto.Words
import AccessAdmin.Database.Address
import AccessAdmin.Database.Calls
import AccessAdmin.Database.Condition
import AccessAdmin.Database.Filters
import AccessAdmin.Database.Pattern
import AccessAdmin.Database.Peer
import AccessAdmin.Database.Pool
import AccessAdmin.Database.Record
import AccessAdmin.Database.Rehearsal
import AccessAdmin.Database.Schema
import AccessAdmin.Database.Statement
import AccessAdmin.Database.Tables
import AccessAdmin.Database.Value
import AccessAdmin.Fault
import AccessAdmin.Http.Admission
import AccessAdmin.Http.Api
import AccessAdmin.Http.Bodies
import AccessAdmin.Http.Description
import AccessAdmin.Http.Endpoint
import AccessAdmin.Http.Exchange
import AccessAdmin.Http.Headers
import AccessAdmin.Http.MediaType
import AccessAdmin.Http.Message
import AccessAdmin.Http.Query
import AccessAdmin.Http.Refusal
import AccessAdmin.Http.Target
import AccessAdmin.Http.TraceContext
import AccessAdmin.Main
import AccessAdmin.Menu.Basic
import AccessAdmin.Menu.Forest
import AccessAdmin.Metrics
import AccessAdmin.Net.SocketAddress
import AccessAdmin.Paging
import AccessAdmin.Policy.Call
import AccessAdmin.Policy.Engine
import AccessAdmin.Policy.Notation
import AccessAdmin.Policy.PathPattern
import AccessAdmin.Policy.PatternReader
import AccessAdmin.Policy.Regex
import AccessAdmin.Policy.RoleGraph
import AccessAdmin.Program
import AccessAdmin.Proofs.Changes.Columns
import AccessAdmin.Proofs.Changes.Keys
import AccessAdmin.Proofs.Changes.Lasting
import AccessAdmin.Proofs.Changes.Menus
import AccessAdmin.Proofs.Changes.Mutations
import AccessAdmin.Proofs.Changes.Passwords
import AccessAdmin.Proofs.Changes.Roles
import AccessAdmin.Proofs.Changes.Sound
import AccessAdmin.Proofs.Changes.Users
import AccessAdmin.Proofs.Changes.Writes
import AccessAdmin.Proofs.Commands
import AccessAdmin.Proofs.Confinement
import AccessAdmin.Proofs.DanglingGrants
import AccessAdmin.Proofs.Database.CodeLists
import AccessAdmin.Proofs.Database.Filters
import AccessAdmin.Proofs.Database.Paths
import AccessAdmin.Proofs.Database.Patterns
import AccessAdmin.Proofs.Decisions
import AccessAdmin.Proofs.Discretion
import AccessAdmin.Proofs.Discretion.Programs
import AccessAdmin.Proofs.Discretion.Services
import AccessAdmin.Proofs.Engine.Coherence
import AccessAdmin.Proofs.Engine.Decision
import AccessAdmin.Proofs.Engine.Listings
import AccessAdmin.Proofs.Engine.Obliging
import AccessAdmin.Proofs.Engine.Obtained
import AccessAdmin.Proofs.Engine.Removals
import AccessAdmin.Proofs.Engine.Stranded
import AccessAdmin.Proofs.ErrorContract
import AccessAdmin.Proofs.ForestAssembly
import AccessAdmin.Proofs.ForestShapes
import AccessAdmin.Proofs.Integrity
import AccessAdmin.Proofs.Interleaving.Clients
import AccessAdmin.Proofs.Interleaving.Courses
import AccessAdmin.Proofs.Interleaving.Crowd
import AccessAdmin.Proofs.Interleaving.Dealings
import AccessAdmin.Proofs.Interleaving.Outcomes
import AccessAdmin.Proofs.Interleaving.Rules
import AccessAdmin.Proofs.Interleaving.Sweeps
import AccessAdmin.Proofs.Interleaving.Untouched
import AccessAdmin.Proofs.LiveReload
import AccessAdmin.Proofs.LostProjections
import AccessAdmin.Proofs.Mediation
import AccessAdmin.Proofs.MenuRefusals
import AccessAdmin.Proofs.MenuTree
import AccessAdmin.Proofs.Navigation
import AccessAdmin.Proofs.Origins.Composed
import AccessAdmin.Proofs.Origins.Mutations
import AccessAdmin.Proofs.Origins.Programs
import AccessAdmin.Proofs.Origins.Services
import AccessAdmin.Proofs.Outcomes.Insertions
import AccessAdmin.Proofs.Outcomes.Menus
import AccessAdmin.Proofs.Outcomes.Plans
import AccessAdmin.Proofs.Outcomes.Planting
import AccessAdmin.Proofs.Outcomes.Readings
import AccessAdmin.Proofs.Outcomes.Roles
import AccessAdmin.Proofs.Outcomes.Users
import AccessAdmin.Proofs.OwnPassword
import AccessAdmin.Proofs.Pages
import AccessAdmin.Proofs.Projecting.Agreement
import AccessAdmin.Proofs.Projecting.Entitlements
import AccessAdmin.Proofs.Projecting.Frame
import AccessAdmin.Proofs.Projecting.Passes
import AccessAdmin.Proofs.Projecting.Turns
import AccessAdmin.Proofs.Projecting.Withstands
import AccessAdmin.Proofs.Rebuild
import AccessAdmin.Proofs.Reparenting
import AccessAdmin.Proofs.Running.Basic
import AccessAdmin.Proofs.Running.Commit
import AccessAdmin.Proofs.Running.Contract
import AccessAdmin.Proofs.Running.Desk
import AccessAdmin.Proofs.Running.Disturbance
import AccessAdmin.Proofs.Running.Outcome
import AccessAdmin.Proofs.Running.Steady
import AccessAdmin.Proofs.Running.Surely
import AccessAdmin.Proofs.Running.Unfailing
import AccessAdmin.Proofs.Running.Weathers
import AccessAdmin.Proofs.Running.Work
import AccessAdmin.Proofs.Saving
import AccessAdmin.Proofs.Seeding
import AccessAdmin.Proofs.Sequences
import AccessAdmin.Proofs.Sessions.Alone
import AccessAdmin.Proofs.Sessions.Atomicity
import AccessAdmin.Proofs.Sessions.Company
import AccessAdmin.Proofs.Sessions.Creations
import AccessAdmin.Proofs.Sessions.Histories
import AccessAdmin.Proofs.Sessions.Serializability
import AccessAdmin.Proofs.StrictListings
import AccessAdmin.Proofs.Subtrees
import AccessAdmin.Proofs.Undecided
import AccessAdmin.Proofs.UnmixedProjections
import AccessAdmin.Proofs.WriteRefusals
import AccessAdmin.Role
import AccessAdmin.Service.Context
import AccessAdmin.Service.Error
import AccessAdmin.Service.Menus
import AccessAdmin.Service.Projection
import AccessAdmin.Service.Roles
import AccessAdmin.Service.Script
import AccessAdmin.Service.Users
import AccessAdmin.Site
import AccessAdmin.Startup
import AccessAdmin.Store.Call
import AccessAdmin.Store.Error
import AccessAdmin.Store.Shared
import AccessAdmin.Store.Tables
import AccessAdmin.Text.Base64
import AccessAdmin.Text.Blank
import AccessAdmin.Text.Form
import AccessAdmin.Text.Number
import AccessAdmin.Text.Percent
import AccessAdmin.Text.Quoted
import AccessAdmin.Text.Search
import AccessAdmin.Text.Separated
import AccessAdmin.Text.Unprinted
import AccessAdmin.Text.Utf8
import AccessAdmin.Timestamp
import AccessAdmin.Timestamp.Reader
import AccessAdmin.User
import AccessAdmin.Wire.Calls
import AccessAdmin.Wire.Json
import AccessAdmin.Wire.Lookup
import AccessAdmin.Wire.Plain
import AccessAdmin.Wire.Printer
import AccessAdmin.Wire.Reader
import AccessAdmin.Wire.Records
import AccessAdmin.Wire.Rows
import AccessAdmin.Wire.Shape
import AccessAdmin.Wire.Yaml
import AccessAdmin.World
