import VectorX.Common.Merkle
import VectorX.Common.HashChain
import VectorX.Common.Run
import VectorX.Common.Ranges
import VectorX.Common.SortedSet
import VectorX.Circuits.JustificationSoundness
import VectorX.Circuits.HeaderRange
import VectorX.Circuits.RotateSoundness
import VectorX.Circuits.DummyRotate
import VectorX.Contracts.Bookkeeping
import VectorX.Contracts.BlockRangeData
import VectorX.Contracts.AuthoritySets
import VectorX.Contracts.Requests
import VectorX.Contracts.LightClient
import VectorX.Contracts.EventLog
import VectorX.Contracts.Guardian
import VectorX.Contracts.Replay
import VectorX.Contracts.Canonical
import VectorX.Input.JustificationRange
import VectorX.Bin.Indexer
import VectorX.Bin.IndexerAcceptance
import VectorX.Bin.Events
import VectorX.Bin.EventScanRun
import VectorX.Bin.FillBlockRange
import VectorX.Bin.Operator
import VectorX.Bin.OperatorRun
import VectorX.Bin.StepSearch
import VectorX.Bin.OperatorProgress
import VectorX.Circuits.SubchainBinding
import VectorX.Bin.JustificationStore
import VectorX.Bin.Prover
import VectorX.Bin.Platform
import VectorX.Bin.RedisClient
