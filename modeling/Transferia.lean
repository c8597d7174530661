import Transferia.Postgres.SnapshotGuarantees
import Transferia.Pipeline.AdmissionNumbering
import Transferia.Pipeline.AtLeastOnce
import Transferia.Iceberg.ReplicaExactlyOnce
import Transferia.Iceberg.AppendReplay
import Transferia.Core.MemoryAccounting
import Transferia.S3.JournalOneWay
import Transferia.Pipeline.RowTotals
import Transferia.Pipeline.AdmissionSafety
import Transferia.ClickHouse.SinkOrder
import Transferia.Postgres.ReplicationSafety
import Transferia.Logbroker.GracefulStop
import Transferia.Logbroker.ReadCredit
import Transferia.Logbroker.CommitOrder
import Transferia.MySql.ReplicationSafety
import Transferia.Delivery.HandoffSafety
import Transferia.Postgres.SlotRecoverySafety
import Transferia.Postgres.SnapshotPlan
import Transferia.Postgres.WeightedRanges
import Transferia.Ydb.Base64
import Transferia.Ydb.CommitLoop
import Transferia.Ydb.OverlapConvergence
import Transferia.Kafka.SendOrder
import Transferia.Changelog.Filter
import Transferia.Changelog.ChangedColumns
import Transferia.OpenSearch.Bulk
import Transferia.Parsers.Protobuf
import Transferia.Parsers.Protoseq
import Transferia.Outbound.Http
import Transferia.Registry.LocalFiles
import Transferia.Kafka.Source
import Transferia.Changelog.CollapsePaths
import Transferia.Contracts.TrackerHistory
import Transferia.ControlPlane.DeliveryStore
import Transferia.MySql.Identity
import Transferia.Core.SchemaColumn
import Transferia.SchemaRegistry.Wire
import Transferia.Support.LittleEndian
