import Octo.Agent.Compaction
import Octo.Agent.Retry
import Octo.Blocks.Cache
import Octo.Blocks.Threads
import Octo.Cli.Watch
import Octo.Config.Coerce
import Octo.Deployment.Addresses
import Octo.Deployment.Form
import Octo.Deployment.Hosts
import Octo.Deployment.Options
import Octo.Deployment.References
import Octo.Deployment.Rollback
import Octo.Deployment.Tags
import Octo.Editor.Selection
import Octo.Editor.Stable
import Octo.Engine.Blame
import Octo.Engine.Loops
import Octo.Engine.Recovery
import Octo.Engine.Shape
import Octo.Flows.Rename
import Octo.Folders.Flatten
import Octo.Http.Isolation
import Octo.Http.Resolve
import Octo.Http.Routes
import Octo.Kv.Endpoint
import Octo.Kv.Objects
import Octo.Kv.Versions
import Octo.Logs.View
import Octo.Queues.Wire
import Octo.RunHost.Exposable
import Octo.RunHost.Pipe
import Octo.RunHost.Proxy
import Octo.RunHost.Tracking
import Octo.Runtime.Correlation
import Octo.Runtime.Deadlock
import Octo.Runtime.Dispatch
import Octo.Runtime.Merge
import Octo.Runtime.RoundTrip
import Octo.Runtime.Shutdown
import Octo.Runtime.Teardown
