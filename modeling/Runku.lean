import Runku.Compatibility.Coexist
import Runku.Contracts.RoundTrip
import Runku.Data.PrefixRange
import Runku.DataSqlite.Delivery
import Runku.DataSqlite.Lifecycle
import Runku.EnvironmentConfiguration.Snapshot
import Runku.Execution.Readable
import Runku.Execution.Replay
import Runku.Execution.ScheduleBase
import Runku.ExecutionQueue.MemoryControl
import Runku.FileStorage.Bytes
import Runku.Gateway.ArtifactCache
import Runku.Identity.EffectiveHash
import Runku.Local.Multipart
import Runku.Local.Publish
import Runku.NodeRuntime.AtMostOnce
import Runku.NodeRuntime.Terminal
import Runku.ObjectStorageRepository.Keys
import Runku.ObjectStorageRepository.Listing
import Runku.ObjectStorageRepository.Quota
import Runku.Otel.Checkpoint
import Runku.Realtime.Payload
import Runku.Realtime.Tickets
import Runku.ReleaseRepository.Serving
import Runku.Releases.ManifestCodec
import Runku.Releases.NextOccurrence
import Runku.Server.DataAdmin
import Runku.Serving.Policy
