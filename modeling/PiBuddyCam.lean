import PiBuddyCam.UpdaterTrace
import PiBuddyCam.UpdaterAllOrNothing
import PiBuddyCam.ArchiveContainment
import PiBuddyCam.AviReader
import PiBuddyCam.AviStream
import PiBuddyCam.StreamKeyframe
import PiBuddyCam.SettingsQuality
import PiBuddyCam.SettingsRestart
import PiBuddyCam.ProvisioningRuns
import PiBuddyCam.AdminEscalation
import PiBuddyCam.ConfigRoundTrip
import PiBuddyCam.FactoryResetGate
import PiBuddyCam.FactoryResetContainment
import PiBuddyCam.RuntimeIpc
import PiBuddyCam.SdpWire
import PiBuddyCam.MediaRange
import PiBuddyCam.UpdaterRecovery
import PiBuddyCam.MigrationBoots
import PiBuddyCam.SetupDocuments
import PiBuddyCam.WifiSecrecy
import PiBuddyCam.NetworkRestore
import PiBuddyCam.NetworkWatchdog
import PiBuddyCam.ProtoCandidate
import PiBuddyCam.UpdaterOffers
import PiBuddyCam.AdminScrubbed
import PiBuddyCam.SettingsStore
import PiBuddyCam.MqttConfig
import PiBuddyCam.TimelapseListing
import PiBuddyCam.TimelapseFrames
import PiBuddyCam.InfoService
import PiBuddyCam.BuildLock
import PiBuddyCam.GpioTrigger
import PiBuddyCam.MediaBuild
import PiBuddyCam.WebrtcRequests
import PiBuddyCam.ViewerSlots
import PiBuddyCam.UpdateControl
import PiBuddyCam.TimelapsePrune
import PiBuddyCam.MediaNames
import PiBuddyCam.Trigger
