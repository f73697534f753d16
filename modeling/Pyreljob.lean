import Pyreljob.Lib.Prog
import Pyreljob.Model.Backend
import Pyreljob.Model.Call
import Pyreljob.Model.Manager
import Pyreljob.Store.Effect
import Pyreljob.Store.Lifecycle
import Pyreljob.Lib.Pool
import Pyreljob.Model.System
import Pyreljob.System.Roles
import Pyreljob.System.Claim
import Pyreljob.System.Terminal
import Pyreljob.System.Execution
import Pyreljob.System.Fencing
import Pyreljob.System.Firing
import Pyreljob.System.OneRun
import Pyreljob.Store.Records
import Pyreljob.Store.View
import Pyreljob.System.Outline
import Pyreljob.System.Solo
import Pyreljob.System.Resume
import Pyreljob.Store.Integrity
import Pyreljob.System.Late
import Pyreljob.System.Recovery
import Pyreljob.System.Arming
import Pyreljob.System.Retries
import Pyreljob.System.Clients
import Pyreljob.System.Scheduling
import Pyreljob.System.Cancelled
import Pyreljob.System.Failed
import Pyreljob.Model.Loop
import Pyreljob.System.Heartbeat
import Pyreljob.System.Budget
import Pyreljob.System.Compensation
import Pyreljob.System.Memory
import Pyreljob.Model.Postgres
import Pyreljob.System.Picking
import Pyreljob.System.Sweep
import Pyreljob.System.Tick
import Pyreljob.System.Immediate
import Pyreljob.Model.Statements
import Pyreljob.System.Racing
import Pyreljob.Model.Migrations
import Pyreljob.System.Migrating
import Pyreljob.Lib.Pattern
import Pyreljob.Model.Listing
import Pyreljob.Store.Tags
import Pyreljob.System.Misfire
import Pyreljob.System.Debt
import Pyreljob.System.Carried
import Pyreljob.Lib.Fair
import Pyreljob.System.Reference
import Pyreljob.System.Ending
import Pyreljob.Classes.Resolution
import Pyreljob.Lib.Sql
import Pyreljob.System.Polling
import Pyreljob.Model.Versions
import Pyreljob.System.Upgrade
import Pyreljob.System.Footprint
import Pyreljob.Model.Submit
import Pyreljob.System.Priority
import Pyreljob.System.Deleting
import Pyreljob.Lib.Amid
import Pyreljob.System.Pruning
import Pyreljob.System.Reported
import Pyreljob.Model.StartTask
import Pyreljob.System.Positions
import Pyreljob.Model.Params
import Pyreljob.Classes.Parameters
import Pyreljob.Lib.Finite
import Pyreljob.Lib.Threads
import Pyreljob.Model.Deployment
import Pyreljob.System.Deployment
import Pyreljob.System.Sequence
import Pyreljob.System.Stopping
import Pyreljob.Model.Locks
import Pyreljob.System.Leases
import Pyreljob.System.Locking
import Pyreljob.System.Apart
import Pyreljob.System.Arguments
import Pyreljob.System.Consecutive
import Pyreljob.System.Due
import Pyreljob.System.Grounds
import Pyreljob.Lib.Pages
import Pyreljob.System.Overview
import Pyreljob.System.Notice
