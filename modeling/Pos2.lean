import Pos2.Calls.Method
import Pos2.Calls.Program
import Pos2.Calls.Safety
import Pos2.Repl.Client
import Pos2.Repl.Reset
import Pos2.Repl.Server
import Pos2.Repl.Structs
import Pos2.Repl.Wal
import Pos2.Repl.World
import Pos2.Repl.History
import Pos2.Repl.Replication
import Pos2.Repl.Solo
import Pos2.Repl.Linear
import Pos2.Repl.Session
import Pos2.Text
import Pos2.Tunnel.Db
import Pos2.Tunnel.Dns
import Pos2.Tunnel.DnsIsolation
import Pos2.Tunnel.Device
import Pos2.Tunnel.DeviceDecisions
import Pos2.Tunnel.DeviceExchange
import Pos2.Calls.Fallible
import Pos2.Loader.Fs
import Pos2.Loader.Images
import Pos2.Loader.Update
import Pos2.Loader.World
import Pos2.Calls.Rely
import Pos2.Loader.Storage
import Pos2.Loader.Switches
import Pos2.Loader.Rollback
import Pos2.Loader.Answers
import Pos2.Server.Names
import Pos2.Server.NamePaths
import Pos2.Wasi.Sqlite
import Pos2.Wasi.InTx
import Pos2.Repl.Commit
import Pos2.Repl.Remote
import Pos2.Tunnel.Restart
import Pos2.Tunnel.OwnNames
import Pos2.Tunnel.Clients
import Pos2.Tunnel.Routing
import Pos2.Wasi.Serving
import Pos2.Loader.Rounds
import Pos2.Loader.Trial
import Pos2.Loader.Handing
import Pos2.Loader.Attempts
import Pos2.Calls.Total
import Pos2.Loader.Shape
import Pos2.Loader.Downloads
import Pos2.Loader.Wedges
import Pos2.Calls.Alone
import Pos2.Loader.Contents
import Pos2.Repl.Pages
import Pos2.Repl.Files
import Pos2.Keyed
import Pos2.Wasi.Fields
import Pos2.Wasi.Bodies
import Pos2.Wasi.Relaying
import Pos2.Wasi.Proxies
import Pos2.Wasi.Forwarding
import Pos2.Tunnel.CrossOrigin
import Pos2.Tunnel.Sni
import Pos2.Tunnel.Framing
import Pos2.Tunnel.Delivery
import Pos2.Server.Installs
import Pos2.Server.Intact
import Pos2.Wasi.Isolation
import Pos2.Loader.Bars
import Pos2.Loader.Retries
import Pos2.Loader.Crashes
import Pos2.Loader.Stocked
import Pos2.Loader.Tending
import Pos2.Loader.Storing
import Pos2.Loader.Tidying
import Pos2.Loader.Consistency
import Pos2.Repl.Frames
import Pos2.Fibonacci
import Pos2.Folds
import Pos2.Repl.Headers
import Pos2.Repl.PendingOpens
import Pos2.Tunnel.Hello
import Pos2.Wasi.Syncing
import Pos2.Calls.Cut
import Pos2.Tunnel.Certs
import Pos2.Tunnel.Renewal
import Pos2.Tunnel.Acme
import Pos2.Tunnel.Issuance
import Pos2.Tunnel.Served
import Pos2.Tunnel.Maintained
import Pos2.Loader.Layers
import Pos2.Loader.Nested
import Pos2.Loader.Cleanup
import Pos2.Repl.Checksum
import Pos2.Bundler.Bundle
import Pos2.Tunnel.IdleTimeout
import Pos2.Bundler.Collect
import Pos2.Calls.Journal
import Pos2.Tunnel.Accounts
import Pos2.Tunnel.Website
import Pos2.Tunnel.Provenance
import Pos2.Tunnel.Setup
import Pos2.Server.Listing
import Pos2.Server.Site
import Pos2.Server.History
import Pos2.Server.Answers
import Pos2.Server.Visits
import Pos2.Server.Visited
