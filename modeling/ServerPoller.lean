import ServerPoller.WalBacklog
import ServerPoller.WalAcceptance
import ServerPoller.WalBudget
import ServerPoller.WalCount
import ServerPoller.FailedWrites
import ServerPoller.IngestRecovery
import ServerPoller.IngestOnce
import ServerPoller.EventGrammar
import ServerPoller.ForcePing
import ServerPoller.ForcedPolls
import ServerPoller.PollAddress
import ServerPoller.RefreshAgreement
import ServerPoller.CompareProbe
import ServerPoller.StateReplacement
import ServerPoller.Dispatch
import ServerPoller.CatalogPages
import ServerPoller.Heartbeats
import ServerPoller.IngestBatches
import ServerPoller.BedrockProbes
import ServerPoller.VersionSearch
import ServerPoller.JavaFraming
import ServerPoller.IngestPoints
import ServerPoller.CatalogPorts
import ServerPoller.PollBackoff
import ServerPoller.ParsedAddresses
import ServerPoller.VarintStreams
import ServerPoller.TriggerContent
import ServerPoller.NextDue
import ServerPoller.DnsCache
import ServerPoller.PollerProgress
import ServerPoller.PollPacing
import ServerPoller.DnsLookups
import ServerPoller.GeoLookups
import ServerPoller.DiscoveryProbes
import ServerPoller.TriggerFile
import ServerPoller.Measurements
