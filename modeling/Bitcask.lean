import Bitcask.Basic
import Bitcask.Log
import Bitcask.Disk
import Bitcask.Writer
import Bitcask.Merge
import Bitcask.Recovery
import Bitcask.KeyDir
import Bitcask.Accounting
import Bitcask.Eval
import Bitcask.Invariant
import Bitcask.RecoveryCorrect
import Bitcask.MergeLoop
import Bitcask.MergeCorrect
import Bitcask.Run
import Bitcask.MergeOutputs
import Bitcask.Concurrency
import Bitcask.Faults
import Bitcask.ReaderPool
import Bitcask.Reopen
import Bitcask.MergeTrigger
import Bitcask.Crash
import Bitcask.SegmentSize
