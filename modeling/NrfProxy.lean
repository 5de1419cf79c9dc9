import NrfProxy.RelayDeadline
import NrfProxy.RelayGrace
import NrfProxy.RelayAuthorisation
import NrfProxy.EncryptionGate
import NrfProxy.UartReception
import NrfProxy.SerialStream
import NrfProxy.AdvertiserRecovery
import NrfProxy.PhoneStream
import NrfProxy.CommandGrammar
import NrfProxy.CommandEcho
import NrfProxy.SecurityWatchdog
import NrfProxy.WatchdogTarget
import NrfProxy.LockedMode
import NrfProxy.ConnReferences
import NrfProxy.WriterWakeup
import NrfProxy.UartTransmit
import NrfProxy.CleanStream
import NrfProxy.DeviceIdentity
import NrfProxy.SendSlices
import NrfProxy.HookChunk
import NrfProxy.FastAdvertising
import NrfProxy.OwnerLockout
import NrfProxy.BaudQueue
import NrfProxy.UartQuiesce
import NrfProxy.OutageWarning
import NrfProxy.LedExclusion
import NrfProxy.BondReset
import NrfProxy.PairingLock
import NrfProxy.WriterDelivery
import NrfProxy.PhoneCommands
import NrfProxy.DropReport
import NrfProxy.UartDelivery
import NrfProxy.ReceptionRecovery
import NrfProxy.StatusTruth
import NrfProxy.OwnerLifetime
