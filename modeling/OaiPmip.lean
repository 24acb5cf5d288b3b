import OaiPmip.Lib.Runs
import OaiPmip.Lib.ChainTable
import OaiPmip.Types
import OaiPmip.HashChains
import OaiPmip.HashKeys
import OaiPmip.Cache
import OaiPmip.CacheFrame
import OaiPmip.CacheOk
import OaiPmip.MagLiveness
import OaiPmip.TunnelUsers
import OaiPmip.LmaBalance
import OaiPmip.LmaLiveness
import OaiPmip.MagIdentity
import OaiPmip.MagUplink
import OaiPmip.Malformed
import OaiPmip.Reordering
import OaiPmip.ClientMirror
import OaiPmip.Cn
import OaiPmip.CnAnswers
import OaiPmip.CnReplay
import OaiPmip.FlowMob
import OaiPmip.FlowRules
import OaiPmip.FlowWalks
import OaiPmip.Handshake
import OaiPmip.LmaKeys
import OaiPmip.MagResources
import OaiPmip.MagThreads
import OaiPmip.Lib.RingList
import OaiPmip.MagAccept
import OaiPmip.MagCounter
import OaiPmip.MagDetach
import OaiPmip.TaskQueue
import OaiPmip.CnKeys
import OaiPmip.HaPrefixes
import OaiPmip.CacheLocks
import OaiPmip.BindAuth
import OaiPmip.FlowMarks
import OaiPmip.FlowTable
import OaiPmip.Packets
import OaiPmip.BulAdd
import OaiPmip.DhaadList
import OaiPmip.HaLifetimes
import OaiPmip.HnpMap
import OaiPmip.Lib.Loops
import OaiPmip.Lib.Paired
import OaiPmip.MihTlv
import OaiPmip.MpaOptions
import OaiPmip.NonceRing
import OaiPmip.PacketKeys
import OaiPmip.TunnelMod
import OaiPmip.TunnelSlots
import OaiPmip.Checksum
import OaiPmip.ConfReload
import OaiPmip.HnpTrim
import OaiPmip.Icmp6Parse
import OaiPmip.Linearize
import OaiPmip.MpdPrefixes
import OaiPmip.OptFind
import OaiPmip.ReturnRoutability
import OaiPmip.HomeRuns
