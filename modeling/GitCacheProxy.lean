import GitCacheProxy.Foundation.TransitionSystem
import GitCacheProxy.Foundation.FileTree
import GitCacheProxy.Foundation.LruCache
import GitCacheProxy.Foundation.Semaphore
import GitCacheProxy.Foundation.Worklist
import GitCacheProxy.Foundation.TreeWalk
import GitCacheProxy.Foundation.DotSegments
import GitCacheProxy.Foundation.Infix
import GitCacheProxy.Foundation.SortedMap
import GitCacheProxy.Foundation.Retained
import GitCacheProxy.Foundation.ResourceOrder
import GitCacheProxy.Foundation.Tally
import GitCacheProxy.Foundation.Hex
import GitCacheProxy.Foundation.Refspec
import GitCacheProxy.Repo
import GitCacheProxy.Index.Basic
import GitCacheProxy.Index.Accounting
import GitCacheProxy.Index.Maintenance
import GitCacheProxy.Index.Wakeup
import GitCacheProxy.Index.Shutdown
import GitCacheProxy.Index.Recency
import GitCacheProxy.Index.Reconcile
import GitCacheProxy.Index.Scan
import GitCacheProxy.Git.Pins
import GitCacheProxy.Git.PktLines
import GitCacheProxy.Git.Upstream
import GitCacheProxy.Git.Stderr
import GitCacheProxy.Git.Lossy
import GitCacheProxy.Git.Diagnostics
import GitCacheProxy.Git.Isolation
import GitCacheProxy.Git.Retry
import GitCacheProxy.Git.RetryPolicy
import GitCacheProxy.Git.FailedClone
import GitCacheProxy.Git.Confinement
import GitCacheProxy.Git.Atomicity
import GitCacheProxy.Git.Machine
import GitCacheProxy.Git.Freshness
import GitCacheProxy.Git.Eviction
import GitCacheProxy.Git.Sequential
import GitCacheProxy.Git.Cancellation
import GitCacheProxy.Lfs.Machine
import GitCacheProxy.Lfs.ContentAddressing
import GitCacheProxy.Lfs.Hashing
import GitCacheProxy.Lfs.AllOrNothing
import GitCacheProxy.Lfs.Slots
import GitCacheProxy.Serve.Permits
import GitCacheProxy.Serve.Pipes
import GitCacheProxy.Serve.Reaper
import GitCacheProxy.System.Basic
import GitCacheProxy.System.Serving
import GitCacheProxy.System.Agreement
import GitCacheProxy.System.Restart
import GitCacheProxy.System.Settings
import GitCacheProxy.Http.Paths
import GitCacheProxy.Http.Request
import GitCacheProxy.Http.Routes
import GitCacheProxy.Http.Readiness
import GitCacheProxy.Lfs.Batch
import GitCacheProxy.Lfs.ObjectUrl
import GitCacheProxy.Lfs.Download
import GitCacheProxy.Http.Metrics
import GitCacheProxy.Serve.Progress
import GitCacheProxy.Git.BatchCheck
import GitCacheProxy.Git.Commands
import GitCacheProxy.Git.Refs
