import WhaleLand.ReaderSafety
import WhaleLand.FailedReads
import WhaleLand.OpcodeCheck
import WhaleLand.Fixed
import WhaleLand.DocumentOrder
import WhaleLand.FdOwnership
import WhaleLand.RejectedFrames
import WhaleLand.FdLeaks
import WhaleLand.SendFailure
import WhaleLand.ObjectIds
import WhaleLand.DispatchDeadlock
import WhaleLand.Registry
import WhaleLand.SharedMemory
import WhaleLand.ControlRoundTrip
import WhaleLand.Hygiene
import WhaleLand.ReaderPositions
import WhaleLand.TypedMessages
import WhaleLand.SystemCalls
import WhaleLand.SingleDispatcher
import WhaleLand.SharedMemoryObjects
import WhaleLand.Survival
import WhaleLand.DistinctDefinitions
