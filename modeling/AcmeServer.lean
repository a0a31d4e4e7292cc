import AcmeServer.Interaction.Program
import AcmeServer.Interaction.Rely
import AcmeServer.Transaction.Basic
import AcmeServer.Table.Evolves
import AcmeServer.Table.Index
import AcmeServer.Resource.Status
import AcmeServer.Resource.Problem
import AcmeServer.Resource.Basic
import AcmeServer.Memstore.State
import AcmeServer.Memstore.Operations
import AcmeServer.Memstore.Call
import AcmeServer.Memstore.Outcome
import AcmeServer.Memstore.Revision
import AcmeServer.Memstore.Fence
import AcmeServer.Memstore.Index
import AcmeServer.Nonce.Manager
import AcmeServer.Nonce.Queue
import AcmeServer.Nonce.Reference
import AcmeServer.Interaction.Attempt
import AcmeServer.Server.Config
import AcmeServer.Server.Host
import AcmeServer.Server.System
import AcmeServer.Server.Respond
import AcmeServer.Server.Request
import AcmeServer.Server.Account
import AcmeServer.Server.Order
import AcmeServer.Server.Certificate
import AcmeServer.Server.Issuance
import AcmeServer.Server.Routes
import AcmeServer.Lifecycle.Machine
import AcmeServer.Lifecycle.Coherence
import AcmeServer.Protocol.Record
import AcmeServer.Protocol.Contract
import AcmeServer.Protocol.Refinement
import AcmeServer.Protocol.Change
import AcmeServer.Protocol.Preservation
import AcmeServer.Protocol.Knowledge
import AcmeServer.Safety.Calls
import AcmeServer.Safety.Respond
import AcmeServer.Safety.Account
import AcmeServer.Safety.NewOrder
import AcmeServer.Safety.Finalize
import AcmeServer.Safety.Certificate
import AcmeServer.Safety.Worker
import AcmeServer.Safety.Issuance
import AcmeServer.Safety.Routes
import AcmeServer.Guarantee.Dispatch
import AcmeServer.Guarantee.Evidence
import AcmeServer.Guarantee.Orders
import AcmeServer.Guarantee.Replacement
import AcmeServer.Guarantee.Revocation
import AcmeServer.Guarantee.Tasks
import AcmeServer.Jws.Json
import AcmeServer.Base64.Basic
import AcmeServer.Der.Basic
import AcmeServer.Name.DerReader
import AcmeServer.Name.TNAuthList
import AcmeServer.Name.Identifier
import AcmeServer.Fallible.Collect
import AcmeServer.X509.Names
import AcmeServer.X509.Chain
import AcmeServer.Interaction.Trace
import AcmeServer.Conduct.Rule
import AcmeServer.Conduct.Handlers
import AcmeServer.Conduct.Worker
import AcmeServer.Guarantee.Nonces
import AcmeServer.Guarantee.Publication
import AcmeServer.Guarantee.Authority
import AcmeServer.Server.Workers
import AcmeServer.X509.Renewal
import AcmeServer.Guarantee.Constraints
import AcmeServer.Memstore.Schedule
import AcmeServer.Jws.Members
import AcmeServer.Jws.Text
import AcmeServer.Jws.Strict
import AcmeServer.Jws.Jwk
import AcmeServer.Utf8.Basic
import AcmeServer.Jws.Envelope
import AcmeServer.Resource.ProblemJSON
import AcmeServer.Paging.Basic
import AcmeServer.Server.Backoff
import AcmeServer.Guarantee.Scopes
import AcmeServer.Challenge.Resolver
import AcmeServer.Challenge.Names
import AcmeServer.Url.Query
import AcmeServer.Conduct.Creation
import AcmeServer.Conduct.Listing
import AcmeServer.Guarantee.OrderList
import AcmeServer.Guarantee.Listing
import AcmeServer.Conduct.Signature
import AcmeServer.Guarantee.Signature
import AcmeServer.Challenge.Network
import AcmeServer.Challenge.Http
