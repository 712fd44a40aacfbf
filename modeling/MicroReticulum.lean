import MicroReticulum.Link.Request
import MicroReticulum.Provisioning.Durability
import MicroReticulum.Provisioning.Constraints
import MicroReticulum.Provisioning.CacheHash
import MicroReticulum.Provisioning.SecretRuns
import MicroReticulum.Link.Access
import MicroReticulum.Link.Exchange
import MicroReticulum.Wire.ByteOrder
import MicroReticulum.Cryptography.Hmac
import MicroReticulum.Transport.ReceiptOutcome
import MicroReticulum.Transport.Clamping
import MicroReticulum.Link.Answered
import MicroReticulum.Link.SessionKey
import MicroReticulum.Announce.Rate
import MicroReticulum.Announce.BlackholeFile
import MicroReticulum.Transport.PathRequests
import MicroReticulum.Transport.Probes
import MicroReticulum.Transport.AnnounceQueue
import MicroReticulum.Cryptography.TokenRoundTrip
import MicroReticulum.Transport.RemotePath
import MicroReticulum.Resource.AnyOrder
import MicroReticulum.Resource.AwaitingProof
import MicroReticulum.Utilities.GenerationalSet
import MicroReticulum.Utilities.Clock
import MicroReticulum.Provisioning.NoticedOptions
import MicroReticulum.Persistence.DestinationEntry
import MicroReticulum.Provisioning.RegistryForest
import MicroReticulum.Provisioning.CompressedReply
import MicroReticulum.Transport.RepeatedProofs
