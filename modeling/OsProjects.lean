import OsProjects.Lib.Memory
import OsProjects.Lib.Links
import OsProjects.Lib.Tiling
import OsProjects.Lib.Double
import OsProjects.Lib.RingBuffer
import OsProjects.Lib.Threads
import OsProjects.Lib.CText
import OsProjects.Lib.Path
import OsProjects.Lib.Words
import OsProjects.Lib.Runs
import OsProjects.Lib.Ascent
import OsProjects.Lib.Objects
import OsProjects.Lib.Descriptors
import OsProjects.Malloc.Metadata
import OsProjects.Malloc.Buddy
import OsProjects.Malloc.FreeList
import OsProjects.Malloc.HeapInv
import OsProjects.Malloc.Lists
import OsProjects.Malloc.Split
import OsProjects.Malloc.Merge
import OsProjects.Malloc.Mmap
import OsProjects.Malloc.Arena
import OsProjects.Malloc.WellFormed
import OsProjects.Malloc.Allocate
import OsProjects.Malloc.Public
import OsProjects.Malloc.Realloc
import OsProjects.Malloc.Alike
import OsProjects.Malloc.Run
import OsProjects.Malloc.Contract
import OsProjects.Malloc.Layout
import OsProjects.Malloc.Coalesce
import OsProjects.Malloc.Carving
import OsProjects.Malloc.DoubleFree
import OsProjects.Malloc.Steps
import OsProjects.Malloc.Mappings
import OsProjects.Malloc.Undo
import OsProjects.Malloc.Calloc
import OsProjects.Malloc.Fit
import OsProjects.Malloc.Statistics
import OsProjects.Malloc.Whole
import OsProjects.Malloc.Twin
import OsProjects.Malloc.Agreement
import OsProjects.Malloc.FirstFit
import OsProjects.Malloc.FirstFitInv
import OsProjects.Malloc.FirstFitRun
import OsProjects.Malloc.Client
import OsProjects.Malloc.Bump
import OsProjects.Malloc.FirstFitClient
import OsProjects.Server.Queue
import OsProjects.Server.Pool
import OsProjects.Server.Log
import OsProjects.Server.RwLock
import OsProjects.Server.LogContents
import OsProjects.Server.Request
import OsProjects.Server.Handler
import OsProjects.Server.Calls
import OsProjects.Server.LoneWriter
import OsProjects.Server.Counters
import OsProjects.Server.LogTimes
import OsProjects.Server.Confinement
import OsProjects.Server.LogGrowth
import OsProjects.Server.Rio
import OsProjects.Server.Responses
import OsProjects.Server.Client
import OsProjects.Server.ClientBuffer
import OsProjects.Server.Dispatch
import OsProjects.Server.HandleRequest
import OsProjects.Server.Reads
import OsProjects.Server.Arrays
import OsProjects.Server.Service
import OsProjects.Server.Writes
import OsProjects.Server.Exchange
import OsProjects.Server.Cgi
import OsProjects.Server.Freshness
import OsProjects.Server.LoneReader
import OsProjects.Server.Session
import OsProjects.Kernel.Bans
import OsProjects.Kernel.BanRuns
import OsProjects.Kernel.Branch
import OsProjects.Kernel.Gates
import OsProjects.Kernel.History
import OsProjects.Shell.Text
import OsProjects.Shell.State
import OsProjects.Shell.Reports
import OsProjects.Shell.Jobs
import OsProjects.Shell.BuiltIns
import OsProjects.Shell.Commands
import OsProjects.Shell.Numbers
import OsProjects.Shell.Environ
import OsProjects.Shell.Tokens
import OsProjects.Shell.History
import OsProjects.Shell.Effects
import OsProjects.Shell.JobRuns
import OsProjects.Shell.Children
import OsProjects.Shell.Signals
import OsProjects.Shell.Pipeline
import OsProjects.Shell.PipelineRuns
import OsProjects.Shell.Aliases
import OsProjects.Shell.Unalias
import OsProjects.Shell.Usage
import OsProjects.Shell.Accounts
import OsProjects.Shell.Operators
import OsProjects.Shell.Expansion
import OsProjects.Shell.Output
import OsProjects.Shell.Redirect
