import AdaptiveLowpan.AadBinding
import AdaptiveLowpan.CoapBuilding
import AdaptiveLowpan.CodecRoundTrip
import AdaptiveLowpan.OqsRecords
import AdaptiveLowpan.Packets
import AdaptiveLowpan.Receiver
import AdaptiveLowpan.Transmission
import AdaptiveLowpan.Reception
import AdaptiveLowpan.EndToEnd
import AdaptiveLowpan.Rejection
import AdaptiveLowpan.Retransmission
import AdaptiveLowpan.Tracking
import AdaptiveLowpan.Tolerance
import AdaptiveLowpan.Logging
import AdaptiveLowpan.Network
import AdaptiveLowpan.RecoveryRule
import AdaptiveLowpan.NonceUse
import AdaptiveLowpan.Wire
import AdaptiveLowpan.HmmBounds
import AdaptiveLowpan.NormalizerDomain
import AdaptiveLowpan.Segmentation
import AdaptiveLowpan.ServerEquivalence
import AdaptiveLowpan.ConfigLoad
import AdaptiveLowpan.FinalBlocks
import AdaptiveLowpan.CoapOutput
import AdaptiveLowpan.CoapRebuild
import AdaptiveLowpan.HashChain
import AdaptiveLowpan.Tampering
import AdaptiveLowpan.CodecHeader
import AdaptiveLowpan.CodecBursts
import AdaptiveLowpan.CodecSafety
import AdaptiveLowpan.CodecPairs
import AdaptiveLowpan.FilterBank
import AdaptiveLowpan.WaveletFilters
import AdaptiveLowpan.Reconstruction
import AdaptiveLowpan.CodecQuantisation
import AdaptiveLowpan.CodecDistortion
import AdaptiveLowpan.Chunks
import AdaptiveLowpan.LinkAccounting
import AdaptiveLowpan.NormalizerMoments
import AdaptiveLowpan.ConfigAddresses
import AdaptiveLowpan.ConfigOrder
import AdaptiveLowpan.DecimalTexts
import AdaptiveLowpan.IntegerSettings
import AdaptiveLowpan.ExchangeAttacks
import AdaptiveLowpan.NodeDelivery
import AdaptiveLowpan.ObserverMeans
import AdaptiveLowpan.Loopback
import AdaptiveLowpan.Demonstration
import AdaptiveLowpan.LoopbackDistortion
import AdaptiveLowpan.HmmFilter
import AdaptiveLowpan.TransitionLearning
import AdaptiveLowpan.EmissionLearning
import AdaptiveLowpan.CodecScaling
import AdaptiveLowpan.KeyStream
import AdaptiveLowpan.Reporting
