import FuseCore.Node
import FuseCore.Table
import FuseCore.Ops
import FuseCore.Index
import FuseCore.Refcount
import FuseCore.Unhash
import FuseCore.Directory
import FuseCore.Reachable
import FuseCore.Ids
import FuseCore.Tree
import FuseCore.Reply
import FuseCore.Readdir
import FuseCore.Handlers
import FuseCore.OpenCount
import FuseCore.Path
import FuseCore.Failures
import FuseCore.Payload
import FuseCore.Hide
import FuseCore.Lookup
import FuseCore.Loop
import FuseCore.LoopSafety
import FuseCore.Options
import FuseCore.Destroy
import FuseCore.Names
import FuseCore.LoopNames
