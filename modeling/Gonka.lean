import Gonka.Chain.Binding
import Gonka.Host.Gossiped
import Gonka.Host.NonceGossip
import Gonka.User.TimeoutVotes
import Gonka.Storage.Marker
import Gonka.Api.Retries
import Gonka.Chain.Pruning
import Gonka.Bridge.Signable
import Gonka.Bridge.Majority
import Gonka.Bls.HonestMajority
import Gonka.Chain.ConfirmationTimeline
import Gonka.Chain.MaintenanceLifecycle
import Gonka.Chain.PocWeights
import Gonka.Chain.Exemptions
import Gonka.Chain.PowerCapping
import Gonka.Chain.DelegationRewards
import Gonka.Chain.MaintenancePhases
import Gonka.Chain.GroupWeights
import Gonka.Chain.NodeThresholds
import Gonka.Chain.UnitOfComputePrice
import Gonka.Api.LeafSampling
import Gonka.Api.SmstProofs
import Gonka.Storage.ValidationObs
import Gonka.Chain.LiquidityPool
import Gonka.Chain.DynamicPricing
import Gonka.Chain.DowntimeTest
import Gonka.Chain.SlotSampling
