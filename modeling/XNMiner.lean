import XNMiner.Lib.Lts
import XNMiner.Queue.Policy
import XNMiner.Queue.StoreInv
import XNMiner.Queue.Durability
import XNMiner.Mining.Phc
import XNMiner.Mining.PhcTypes
import XNMiner.Mining.DrainStop
import XNMiner.Mining.EngineCustody
import XNMiner.Mining.EngineFrames
import XNMiner.Mining.EngineMail
import XNMiner.Mining.EngineMoves
import XNMiner.Mining.EngineRings
import XNMiner.Mining.EngineStaff
import XNMiner.Mining.ErrorCall
import XNMiner.App.Window
import XNMiner.App.Wave
import XNMiner.App.Flush
import XNMiner.App.Backoff
import XNMiner.App.NoLoss
import XNMiner.App.PostedCost
import XNMiner.App.InstanceLock
import XNMiner.App.RejectedStart
import XNMiner.Queue.CleanReload
import XNMiner.Queue.TornSave
import XNMiner.App.RejectedBody
import XNMiner.App.PollOrder
import XNMiner.App.PublicDifficulty
import XNMiner.App.ConsoleHandler
import XNMiner.App.SignalHandler
import XNMiner.App.Teardown
import XNMiner.App.FlushAccount
import XNMiner.Efficiency.ThermalHunt
import XNMiner.Efficiency.ThermalRuns
import XNMiner.Mining.DevFee
import XNMiner.Mining.HitsLabelled
import XNMiner.Mining.BestHit
import XNMiner.Mining.RingSafety
import XNMiner.Mining.Sizing
import XNMiner.Mining.VramPlan
import XNMiner.Mining.GpuTest
import XNMiner.Mining.XuniThrottle
import XNMiner.Queue.BagCodec
import XNMiner.Queue.BagInvariant
import XNMiner.Queue.HitBytes
import XNMiner.Queue.RobustLoad
import XNMiner.Util.Sha256
import XNMiner.Config.IniRoundTrip
import XNMiner.Network.Difficulty
import XNMiner.Efficiency.GpuPower
import XNMiner.Util.CpuAffinity
import XNMiner.Monitoring.Woodyminer
import XNMiner.Vendor.Launch
import XNMiner.Vendor.KeygenWork
