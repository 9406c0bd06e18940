import FerroRemote.Math.Table
import FerroRemote.Math.Machine
import FerroRemote.Agent.System
import FerroRemote.Agent.DescriptorLedger
import FerroRemote.Agent.Ownership
import FerroRemote.Agent.OwnershipRuns
import FerroRemote.Agent.GpioSubscription
import FerroRemote.Agent.LockDiscipline
import FerroRemote.Agent.EventStream
import FerroRemote.Client.AsyncOps
import FerroRemote.Client.SubscriptionRace
import FerroRemote.Client.CallbackLifetime
import FerroRemote.Agent.FanOutLifetime
import FerroRemote.Math.Signal
import FerroRemote.Agent.Logger
import FerroRemote.Agent.LoggerSubscription
import FerroRemote.Agent.FileTransfer
import FerroRemote.Client.FileMirror
import FerroRemote.Agent.BusServices
import FerroRemote.Agent.FsService
import FerroRemote.Agent.HandleFreshness
import FerroRemote.Agent.PollAgreement
import FerroRemote.Agent.PathCoherence
import FerroRemote.Agent.SessionKeys
import FerroRemote.Agent.SmbusService
import FerroRemote.Client.SmbusTransfer
import FerroRemote.Agent.FileBlocks
import FerroRemote.Client.FileBlocks
import FerroRemote.Agent.SpiService
import FerroRemote.Client.SpiConfiguration
import FerroRemote.Agent.DirectoryIteration
import FerroRemote.Client.DirectoryIterator
import FerroRemote.Client.IteratorClones
import FerroRemote.Math.PathTree
import FerroRemote.Math.TreeCalls
import FerroRemote.Agent.TreeService
import FerroRemote.Client.FuseNamespace
import FerroRemote.Math.Numerals
import FerroRemote.Utilities.Endpoints
import FerroRemote.Utilities.EndpointGrammar
import FerroRemote.Utilities.HexCodec
import FerroRemote.Agent.Multicast
import FerroRemote.Agent.LogQueue
import FerroRemote.Agent.PinRegistry
import FerroRemote.Agent.RegistryKeys
import FerroRemote.Agent.FanOut
import FerroRemote.Agent.SpiData
import FerroRemote.Agent.SpiHandles
import FerroRemote.Client.SpiData
import FerroRemote.Agent.LogOutputRuns
import FerroRemote.Agent.OsFiles
import FerroRemote.Agent.WriteLoop
import FerroRemote.Agent.PositionedIo
import FerroRemote.Client.FuseReaddir
import FerroRemote.Math.BinarySearch
import FerroRemote.Math.Calls
import FerroRemote.Utilities.BinMap
import FerroRemote.Utilities.PrefixTrie
import FerroRemote.Lua.Library
import FerroRemote.Lua.StackDiscipline
import FerroRemote.Lua.PathReading
import FerroRemote.Lua.PathAssignment
import FerroRemote.Lua.PathLaws
import FerroRemote.Lua.Objects
import FerroRemote.Lua.ObjectRoundTrip
import FerroRemote.Lua.ClientObjects
import FerroRemote.Lua.Subscriptions
import FerroRemote.Math.Erasure
import FerroRemote.Lua.Closing
import FerroRemote.Math.Device
import FerroRemote.Agent.SmbusBlocks
import FerroRemote.Agent.I2cTransfer
import FerroRemote.Math.Words
import FerroRemote.Agent.SpiRegisters
import FerroRemote.Client.FuseMount
import FerroRemote.Utilities.ResultCopies
import FerroRemote.Agent.GpioSetup
import FerroRemote.Agent.GpioPulse
import FerroRemote.Client.UdpPingerRuns
import FerroRemote.Agent.LogParameters
import FerroRemote.Lua.ObjectTexts
import FerroRemote.Lua.PathScanner
import FerroRemote.Lua.ObjectPath
import FerroRemote.Lua.ValueStoring
import FerroRemote.Lua.NumberTables
import FerroRemote.Utilities.BinSearch
import FerroRemote.Utilities.TokenSkipping
import FerroRemote.Lua.BuiltObjects
import FerroRemote.Lua.ObjectClones
import FerroRemote.Math.ByteOrder
import FerroRemote.Math.Scanning
import FerroRemote.Lua.StructFormat
import FerroRemote.Lua.StructLayout
import FerroRemote.Lua.StructRoundTrip
import FerroRemote.Lua.EventQueue
import FerroRemote.Lua.TimerRuns
import FerroRemote.Math.Histories
import FerroRemote.Lua.TimerOutcomes
import FerroRemote.Client.PacedFile
import FerroRemote.Client.FileCommands
import FerroRemote.Client.MountedFile
import FerroRemote.Agent.ServiceLifecycle
import FerroRemote.Agent.GpioInfo
import FerroRemote.Client.PinInfo
import FerroRemote.Agent.ReactorThread
import FerroRemote.Client.RemoteLog
import FerroRemote.Lua.RegisterTables
