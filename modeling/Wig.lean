import Wig.Lib.Proc
import Wig.Lib.Table
import Wig.Lib.System
import Wig.Lib.Split
import Wig.Lib.Collect
import Wig.Lib.Lines
import Wig.Lib.Bytes
import Wig.Lib.Block
import Wig.Lib.PrefixTrie
import Wig.Lib.Interleave
import Wig.Lib.Errors
import Wig.Lib.Lexical
import Wig.Lib.Sql
import Wig.Lib.SqlText
import Wig.Net.Text
import Wig.Net.RoundTrip
import Wig.Net.Key
import Wig.Net.Range
import Wig.Net.Subnet
import Wig.Net.Interval
import Wig.Cidranger.Network
import Wig.Cidranger.Trie
import Wig.Cidranger.Ranger
import Wig.Model.Basic
import Wig.Model.Timestamp
import Wig.Model.CIDR
import Wig.Model.Carried
import Wig.Model.Object
import Wig.Model.Registered
import Wig.Model.Stored
import Wig.Model.Tables
import Wig.Model.Text
import Wig.Crud.Registry
import Wig.Crud.Find
import Wig.Crud.Query
import Wig.Crud.Client
import Wig.Crud.Statement
import Wig.Model.Statements
import Wig.Model.Maps
import Wig.Crud.Encoding
import Wig.Sqlite.Migrate
import Wig.Crudlog.Op
import Wig.Crudlog.Datastore
import Wig.Crudlog.Calls
import Wig.Crudlog.Integrity
import Wig.Crudlog.Node
import Wig.Crudlog.Stream
import Wig.Crudlog.Phantom
import Wig.Crudlog.Whole
import Wig.Crudlog.Horizon
import Wig.Crudlog.Sink
import Wig.Crudlog.Agreement
import Wig.Crudlog.Origin
import Wig.Crudlog.Link
import Wig.Crudlog.Chain
import Wig.Crudlog.Follow
import Wig.Crudlog.Remote
import Wig.Crudlog.Source
import Wig.Crudlog.Codec
import Wig.Crudlog.Reload
import Wig.Crudlog.Framing
import Wig.Crudlog.Broker
import Wig.Crudlog.RemoteLoop
import Wig.Httptransport.Errors
import Wig.Httptransport.Transport
import Wig.Httptransport.Url
import Wig.Crud.Command
import Wig.Crud.Endpoint
import Wig.Crudlog.Retry
import Wig.Crudlog.Transient
import Wig.Store.Primary
import Wig.Store.Broadcast
import Wig.Store.Replication
import Wig.Store.Sinks
import Wig.Store.Copy
import Wig.Store.Remote
import Wig.Store.Backup
import Wig.Store.Find
import Wig.Store.Chain
import Wig.Store.Accepted
import Wig.Store.Query
import Wig.Store.Command
import Wig.Store.Endpoint
import Wig.Httpapi.Auth
import Wig.Httpapi.Mtls
import Wig.Httpapi.Roles
import Wig.Httpapi.Bearer
import Wig.Gateway.Kernel
import Wig.Gateway.Driver
import Wig.Gateway.Interface
import Wig.Gateway.Wireguard
import Wig.Gateway.Index
import Wig.Gateway.Effects
import Wig.Gateway.Update
import Wig.Gateway.Replay
import Wig.Gateway.Refine
import Wig.Gateway.Snapshot
import Wig.Gateway.Sequence
import Wig.Gateway.Atomic
import Wig.Gateway.Follow
import Wig.Gateway.Recovery
import Wig.Gateway.Wedge
import Wig.Registration.Allocate
import Wig.Registration.Register
import Wig.Registration.Pool
import Wig.Registration.Usable
import Wig.Registration.Ranger
import Wig.Registration.Assigned
import Wig.Registration.Expiry
import Wig.Expire.Expire
import Wig.Sessions.Finder
import Wig.Sessions.Manager
import Wig.Sessions.Restart
import Wig.Sessions.Batch
import Wig.Sessions.Privacy
import Wig.Sessions.Independence
import Wig.Sessions.Lookup
import Wig.Gateway.Stats
import Wig.Api.Server
import Wig.Api.Runs
import Wig.Api.Availability
import Wig.Api.Attack
