import BuildingBlocks.Pool.SpscCorrect
import BuildingBlocks.Pool.MpscCorrect
import BuildingBlocks.Pool.MpscOrder
import BuildingBlocks.Pool.Shared
import BuildingBlocks.Boot.Fallback
import BuildingBlocks.Boot.Recovery
import BuildingBlocks.Boot.Settle
import BuildingBlocks.Update.Package
import BuildingBlocks.Update.Atomic
import BuildingBlocks.Update.Target
import BuildingBlocks.Update.Device
import BuildingBlocks.Update.Rollback
import BuildingBlocks.Busd.Dispatch
import BuildingBlocks.Busd.Session
import BuildingBlocks.Busd.Chunks
import BuildingBlocks.Busd.Wedge
import BuildingBlocks.Busd.Handles
import BuildingBlocks.Busd.Ping
import BuildingBlocks.Busd.HangUp
import BuildingBlocks.Busd.RoundTrip
import BuildingBlocks.Busd.Drain
import BuildingBlocks.Busd.Parsers
import BuildingBlocks.Busd.Algebra
import BuildingBlocks.Busd.Capacity
import BuildingBlocks.Json.Bounds
import BuildingBlocks.Update.Verify
import BuildingBlocks.Update.Attempts
import BuildingBlocks.Persist.UpdateLog
import BuildingBlocks.Persist.Mfg
import BuildingBlocks.Led.Event
import BuildingBlocks.Audio.Bounds
import BuildingBlocks.Audio.Account
import BuildingBlocks.Audio.Integrity
import BuildingBlocks.Audio.Drain
import BuildingBlocks.Audio.Encoder
import BuildingBlocks.Audio.Capture
import BuildingBlocks.Audio.Negotiate
import BuildingBlocks.Audio.Lifetime
import BuildingBlocks.Persist.Histories
import BuildingBlocks.Persist.ConfigFaults
import BuildingBlocks.Persist.Mount
import BuildingBlocks.Log.Rotation
import BuildingBlocks.Led.Blink
import BuildingBlocks.Hal.Gpio
import BuildingBlocks.Hal.Process
import BuildingBlocks.Hal.I2c
import BuildingBlocks.Recovery.Snapshot
import BuildingBlocks.Block.Lifecycle
import BuildingBlocks.Cli.Led
import BuildingBlocks.Cli.Sub
