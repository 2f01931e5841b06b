import SystemProgramming.Malloc.Alignment
import SystemProgramming.Malloc.Boundaries
import SystemProgramming.Malloc.Exhaustion
import SystemProgramming.Malloc.Reuse
import SystemProgramming.Mmu.SegmentationFaults
import SystemProgramming.Mmu.Transparency
import SystemProgramming.ParallelMake.CycleDetect
import SystemProgramming.ParallelMake.Goals
import SystemProgramming.ParallelMake.Rebuild
import SystemProgramming.ParallelMake.Schedule
import SystemProgramming.Drm.Rest
import SystemProgramming.Drm.Refusal
import SystemProgramming.Minixfs.Entries
import SystemProgramming.Minixfs.Files
import SystemProgramming.Minixfs.Reservation
import SystemProgramming.Minixfs.VirtualFiles
import SystemProgramming.FileServer.Contents
import SystemProgramming.FileServer.Conversations
import SystemProgramming.FileServer.Grammar
import SystemProgramming.FileServer.Listing
import SystemProgramming.FileServer.Paths
import SystemProgramming.FileServer.Refused
import SystemProgramming.FileServer.Rest
import SystemProgramming.FileServer.Transfers
import SystemProgramming.BlockingQueue.Service
import SystemProgramming.Barrier.Rest
import SystemProgramming.Semaphore.Service
import SystemProgramming.Scheduling.Averages
import SystemProgramming.Scheduling.Arrivals
import SystemProgramming.Scheduling.Optimality
import SystemProgramming.Scheduling.Statistics
import SystemProgramming.Chatroom.Broadcast
import SystemProgramming.Chatroom.Delivery
import SystemProgramming.Chatroom.Rest
import SystemProgramming.Chatroom.SocketErrors
import SystemProgramming.Vector.Aliasing
import SystemProgramming.Vector.Growth
import SystemProgramming.Sstring.Buffers
import SystemProgramming.Shell.Parsing
import SystemProgramming.Shell.Recall
import SystemProgramming.Shell.Sessions
import SystemProgramming.Shell.Redirections
import SystemProgramming.Shell.Processes
import SystemProgramming.Memcheck.Moves
import SystemProgramming.PasswordCracker.Enumeration
import SystemProgramming.PasswordCracker.HashCounts
import SystemProgramming.PasswordCracker.Lockstep
import SystemProgramming.PasswordCracker.Verdicts
import SystemProgramming.Lookup.Malformed
import SystemProgramming.TeachingThreads.Chunks
import SystemProgramming.MapReduce.Flow
import SystemProgramming.CamelCaser.Uninitialised
import SystemProgramming.Dd.Dd
import SystemProgramming.Env.Env
import SystemProgramming.BlockingQueue.Nodes
import SystemProgramming.FileServer.CleanUp
import SystemProgramming.ParallelMake.Parmake
import SystemProgramming.ParallelMake.Termination
