import Skw.Lib.Machine
import Skw.Work.Rcu
import Skw.Cmd.Result
import Skw.Cmd.Buffer
import Skw.Cmd.Malformed
import Skw.Tx.Async
import Skw.Peer.Recovery
import Skw.Rx.Geometry
import Skw.Rx.DropInfo
import Skw.Rx.Amsdu
import Skw.Rx.Taint
import Skw.Rx.Stranded
import Skw.Rx.Conserve
import Skw.Rx.Bar
import Skw.Rx.Linked
import Skw.Rx.Defrag
import Skw.Timer.Order
import Skw.Timer.Cancel
import Skw.Mlme.Authenticated
import Skw.Mlme.Aid
import Skw.Iface.Opened
import Skw.Sdio.Irq
import Skw.Sdio.Stream
import Skw.Sdio.Recovered
import Skw.Sdio.Owned
import Skw.Sdio.Pin
import Skw.Sdio.DeepSleep
import Skw.Bt.Flush
import Skw.Bt.NvSound
import Skw.Bt.Open
import Skw.Usb.Pool
import Skw.Usb.Receive
import Skw.Scan.Complete
import Skw.Sta.Single
import Skw.Tx.PureAck
import Skw.Tx.Room
import Skw.Tx.Radio
import Skw.Iface.Wmm
import Skw.Sdio.Resync
import Skw.Edma.Completion
import Skw.Edma.Refill
import Skw.Boot.Table
import Skw.Boot.Bounds
import Skw.Mbssid.Room
import Skw.Mbssid.Inherit
import Skw.Dfs.Queue
import Skw.Dfs.Shift
import Skw.Regd.Exact
import Skw.Config.MibSection
import Skw.Config.Safe
import Skw.Dfs.Detected
import Skw.Key.Conf
import Skw.Key.Seed
import Skw.Key.Buffered
import Skw.Iface.Admission
import Skw.Iface.Change
import Skw.Mlme.MgmtTx
import Skw.Power.Wow
import Skw.Ap.Beacon
import Skw.Ap.Start
import Skw.Ap.Restart
import Skw.Sta.Cached
import Skw.Ucom.Device
import Skw.Ucom.Write
import Skw.Sdio.Wake
import Skw.Sdio.Send
import Skw.Sdio.Request
import Skw.Sdio.Control
import Skw.Dump.Memory
import Skw.Iw.KeepChecksum
import Skw.Iw.KeepSend
import Skw.Iw.WowFilter
import Skw.Tdls.Setup
import Skw.Mbssid.Bssid
import Skw.Rx.SnRange
import Skw.Usb.Splits
import Skw.Bt.Answer
import Skw.Usb.ServiceSound
import Skw.Image.Consistent
import Skw.Sta.Watched
import Skw.Sta.Patience
import Skw.Sta.Budget
import Skw.Calib.Download
import Skw.Tx.NdoOwned
import Skw.Work.Event
import Skw.Rx.Callback
import Skw.Sdio.Direct
import Skw.Sdio.Address
import Skw.Bt.LogPort
import Skw.Usb.Rom
import Skw.Record.Bounds
import Skw.Iw.WowSend
import Skw.Bt.Wakeup
import Skw.Rx.Csum
