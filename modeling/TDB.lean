import TDB.SendResult
import TDB.FilteredStatements
import TDB.MultiAttrIndex
import TDB.ScanDelete
import TDB.LogManager
import TDB.OrderBy
import TDB.PredicatePushdown
import TDB.RewriterRuns
import TDB.PredicateRewrite
import TDB.StoredDates
import TDB.OpenTables
import TDB.MvccTrx
import TDB.ColumnResolution
import TDB.FailedInsert
import TDB.BufferedWriter
import TDB.FrameManager
import TDB.KeyLookup
import TDB.IndexLookup
import TDB.IndexHeader
import TDB.PageReuse
import TDB.PageRecovery
import TDB.FrameAllocation
import TDB.PageLayout
import TDB.RecordRedo
import TDB.ConditionClauses
import TDB.RecordInsertFailure
import TDB.ScannerReopen
import TDB.RecordCopies
import TDB.SelectPlan
import TDB.ConditionAnalysis
import TDB.LruEntries
import TDB.PinBalance
import TDB.Reopen
import TDB.LogIterator
import TDB.RecordVersions
import TDB.OperatorErrors
import TDB.CurrentTuple
import TDB.CompareValue
import TDB.ConstantFolding
import TDB.Having
import TDB.PlainCommunicator
import TDB.NodeLookup
import TDB.RecordPageIterator
import TDB.LruRecency
import TDB.TrxLog
import TDB.TrxDurability
import TDB.SelectResult
import TDB.TableStatements
import TDB.SessionReply
import TDB.PrintedRows
import TDB.SqlParser
