import OtaFix.Lib.Run
import OtaFix.Lib.Reader
import OtaFix.Lib.BitMask
import OtaFix.Crc
import OtaFix.Image
import OtaFix.FlashNrf5x
import OtaFix.Uf2.WriteBlock
import OtaFix.Uf2.AppSession
import OtaFix.Uf2.Msc
import OtaFix.Uf2.Interrupted
import OtaFix.Dfu.Serial
import OtaFix.Dfu.Machine
import OtaFix.Dfu.Ble
import OtaFix.SecureDfu.Invariant
import OtaFix.SecureDfu.Activation
import OtaFix.Uf2.BootEffect
import OtaFix.Usb
import OtaFix.SettingsCut
import OtaFix.Lib.Prog
import OtaFix.Mota.Device
import OtaFix.Mota.Container
import OtaFix.Mota.Cache
import OtaFix.Mota.Apply
import OtaFix.Mota.Reads
import OtaFix.Mota.Writes
import OtaFix.Mota.Steps
import OtaFix.Mota.AppRun
import OtaFix.Mota.Select
import OtaFix.Mota.BootRun
import OtaFix.Mota.Run
import OtaFix.Mota.OneShot
import OtaFix.Mota.Contained
import OtaFix.Mota.Source
import OtaFix.Mota.PowerCut
import OtaFix.Dfu.SerialQueue
import OtaFix.Mota.Detools
import OtaFix.Mota.Scan
import OtaFix.Mota.Shift
import OtaFix.Lib.Fat16
import OtaFix.Uf2.GhostFat
import OtaFix.Uf2.Completion
import OtaFix.Uf2.Staging
import OtaFix.BootCheck
import OtaFix.Lib.ByteSource
import OtaFix.Mota.Grammar
import OtaFix.Mota.RegionHash
import OtaFix.Mota.Hybrid
import OtaFix.Mota.SdCard
import OtaFix.Mota.CopyImage
import OtaFix.Lib.Protobuf
import OtaFix.SecureDfu.Reference
import OtaFix.Lib.Cursor
import OtaFix.SecureDfu.Pointer
import OtaFix.SecureDfu.Canonical
import OtaFix.SecureDfu.Resume
import OtaFix.Compat
import OtaFix.CrcDetect
import OtaFix.Mota.Records
import OtaFix.SettingsSeal
import OtaFix.Lib.Fips180
import OtaFix.Sha256Ctx
import OtaFix.Mota.Qspi
import OtaFix.Dfu.SerialCache
import OtaFix.Dfu.InitPointer
import OtaFix.ImagePointer
import OtaFix.PatchManifest
import OtaFix.Lib.Tally
import OtaFix.Mota.Caps
import OtaFix.LiveApp
import OtaFix.CrcRemainder
import OtaFix.Hci.Slip
import OtaFix.Pstorage.Delivery
import OtaFix.Pstorage.LazyErase
import OtaFix.Hci.Link
import OtaFix.Hci.Protocol
import OtaFix.Dfu.SdSwap
import OtaFix.Dfu.SdUpdate
import OtaFix.AppScheduler
