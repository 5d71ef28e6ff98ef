import LocalDrop.Lib.CString
import LocalDrop.Lib.InetAddress
import LocalDrop.Lib.Slots
import LocalDrop.Lib.Runs
import LocalDrop.Lib.Json
import LocalDrop.Pairing
import LocalDrop.QueueOrder
import LocalDrop.JobStatus
import LocalDrop.JsonViews
import LocalDrop.Discovery
import LocalDrop.Uploads
import LocalDrop.Failures
import LocalDrop.StoredFiles
import LocalDrop.Authorization
import LocalDrop.PairedTokens
import LocalDrop.PairRecord
import LocalDrop.RateLimiter
import LocalDrop.Sessions
import LocalDrop.GuessRate
import LocalDrop.Ownership
import LocalDrop.Expiry
import LocalDrop.Effects
import LocalDrop.Finished
import LocalDrop.TokenMap
import LocalDrop.Registry
import LocalDrop.Ports
import LocalDrop.ChunkedUpload
import LocalDrop.ErrorText
import LocalDrop.JsonProducers
import LocalDrop.QueueRoom
import LocalDrop.FormValues
import LocalDrop.PeerNames
import LocalDrop.JsonMemory
import LocalDrop.Lib.Http
import LocalDrop.Replies
import LocalDrop.PeerRequests
import LocalDrop.Delivery
import LocalDrop.PairExchange
import LocalDrop.Confinement
import LocalDrop.Refusals
import LocalDrop.Admission
import LocalDrop.Shutdown
import LocalDrop.Outsiders
import LocalDrop.Guessing
import LocalDrop.PairingCodes
import LocalDrop.Strays
import LocalDrop.Answers
import LocalDrop.JobPolls
