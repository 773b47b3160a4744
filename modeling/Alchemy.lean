import Alchemy.AsyncTask.RoundRobin
import Alchemy.Cache.NodeMeta
import Alchemy.Cache.UpdateQuery
import Alchemy.Log.AtomicCalls
import Alchemy.Log.SliceBounds
import Alchemy.Oid.ReaderOverflow
import Alchemy.Table.Capacity
import Alchemy.Table.Reset
import Alchemy.Tpcc.BenchTask
import Alchemy.Tpcc.CustomerAccounts
import Alchemy.Tpcc.DeliveredOnce
import Alchemy.Tpcc.DeliveryAlone
import Alchemy.Tpcc.FieldTranslation
import Alchemy.Tpcc.FixedString
import Alchemy.Tpcc.PaymentAtomic
import Alchemy.Tpcc.Rollback
import Alchemy.Tpcc.Serializable
import Alchemy.Tpcc.StockAccounts
import Alchemy.Tpcc.StockLevel
import Alchemy.Tpcc.NewOrderAtomic
