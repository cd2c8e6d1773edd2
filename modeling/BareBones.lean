import BareBones.Lib.Runs
import BareBones.Lib.TokenSemaphore
import BareBones.MemoryManagement
import BareBones.DoubleLinkedList
import BareBones.Process
import BareBones.Scheduler
import BareBones.ProcessTable
import BareBones.TableInvariant
import BareBones.Asleep
import BareBones.SchedulerRefinement
import BareBones.SchedulerPartition
import BareBones.Waiters
import BareBones.Semaphores
import BareBones.SemaphoreHistory
import BareBones.SemaphoreCalls
import BareBones.SemaphoreInvariant
import BareBones.Effects
import BareBones.WakeUps
import BareBones.SemaphoreQueues
import BareBones.Tokens
import BareBones.SemaphoreAccounting
import BareBones.Programs
import BareBones.TestSync
import BareBones.Lib.RingBuffer
import BareBones.Pipes
import BareBones.PipeGates
import BareBones.PipeFifo
import BareBones.Lib.Extents
import BareBones.Bitmap
import BareBones.BitmapSafety
import BareBones.Lib.LevelTree
import BareBones.Buddy
import BareBones.BuddyTree
import BareBones.BuddyHeap
import BareBones.BuddySafety
import BareBones.BuddyAccounting
import BareBones.BuddyBounds
import BareBones.Lib.Fifo
import BareBones.Dispatches
import BareBones.Overtaking
import BareBones.Resumption
import BareBones.Bystanders
import BareBones.Lib.RoundRobin
import BareBones.Rotation
import BareBones.PipeCalls
import BareBones.Stranded
import BareBones.PipeReuse
import BareBones.PipeGenerations
import BareBones.PipeEnd
import BareBones.Exits
import BareBones.Audited
import BareBones.Books
import BareBones.Shape
import BareBones.Ownership
import BareBones.BitmapOwners
import BareBones.BitmapExact
import BareBones.QueueMoves
import BareBones.Carried
import BareBones.FailedCreation
import BareBones.Changes
import BareBones.Refusing
import BareBones.Foreground
import BareBones.IdleAvailable
import BareBones.Lost
import BareBones.HeapExhaustion
import BareBones.BuddyFailures
import BareBones.BuddyIndexes
import BareBones.PipeFailures
import BareBones.SemaphoreFailures
import BareBones.WaitFailures
import BareBones.Keyboard
import BareBones.KeyTokens
import BareBones.Sleep
import BareBones.Video
import BareBones.Lib.ByteMemory
import BareBones.Builtins
import BareBones.Shell
import BareBones.ShellLines
import BareBones.ShellWaits
import BareBones.Lib.Copies
import BareBones.Lib.MaximalRuns
import BareBones.Lib.DoubleChain
import BareBones.KernelLib
import BareBones.Modules
import BareBones.Numerals
import BareBones.NumberWords
import BareBones.CommandLine
import BareBones.Framebuffer
import BareBones.LinkedNodes
import BareBones.LinkedLists
import BareBones.MemoryInfo
import BareBones.ReachedHeap
import BareBones.ProcessCount
import BareBones.ProcessInfo
import BareBones.Mvar
import BareBones.MvarSteps
import BareBones.OnePlace
import BareBones.Hexadecimals
import BareBones.BuddySearch
import BareBones.Spinlocks
import BareBones.KeyboardRing
import BareBones.PurgeLoop
import BareBones.PipePassing
import BareBones.PipeClears
import BareBones.Lib.Processor
import BareBones.Interrupts
import BareBones.ContextSwitch
import BareBones.Lib.TimeSharing
import BareBones.VirtualProcessors
import BareBones.Lib.Terminal
import BareBones.TextScreen
import BareBones.LineEditing
import BareBones.ResponseTime
import BareBones.Lib.Interleaving
import BareBones.PipeStreams
import BareBones.Pipelines
