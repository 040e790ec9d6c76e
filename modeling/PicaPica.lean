import PicaPica.Node.ClientMap
import PicaPica.Node.Consent
import PicaPica.Node.TreeOfNode
import PicaPica.Node.InterNode
import PicaPica.Client.TextMessages
import PicaPica.Client.DirectSwitch
import PicaPica.Client.FileHandles
import PicaPica.Client.FileDelivery
import PicaPica.Node.LinkRecord
import PicaPica.Node.LinkSockets
import PicaPica.Node.Wakeup
import PicaPica.Node.Teardown
import PicaPica.Node.ClientRecord
import PicaPica.Node.SocketOwners
import PicaPica.Node.Multilogin
import PicaPica.Client.Clnodelist
import PicaPica.ByteOrder
import PicaPica.Node.LoginMap
import PicaPica.Client.SkyNet
import PicaPica.Client.History
import PicaPica.Client.DirectTrust
import PicaPica.Client.VersionHandshake
import PicaPica.Client.ProcessC2c
import PicaPica.Node.WriteQueue
import PicaPica.Node.ReadBuffer
import PicaPica.Node.NodeAddrs
import PicaPica.Client.DirectAttempt
import PicaPica.Lib.Items
import PicaPica.Node.NodeItems
import PicaPica.Client.ClnodelistItems
import PicaPica.Client.FileRequest
import PicaPica.Lib.Spans
import PicaPica.Node.FrameSpans
import PicaPica.Client.ChannelList
import PicaPica.Client.LinkOwners
import PicaPica.Client.SendOrder
import PicaPica.Client.TransferCount
import PicaPica.Client.ListenerPass
import PicaPica.Client.ListenerTurns
import PicaPica.Client.TransferMessages
import PicaPica.Client.TransferSteps
import PicaPica.Client.OnlineFlag
import PicaPica.Client.DirectAddresses
import PicaPica.Client.FileSending
import PicaPica.Node.SearchAnswers
import PicaPica.Client.LoginNotices
import PicaPica.Node.AllocFailures
import PicaPica.Lib.Rank
import PicaPica.Client.NodesTable
import PicaPica.Node.NewconnSlots
import PicaPica.Node.Nodewait
import PicaPica.Node.HandlerSends
import PicaPica.Node.Names
import PicaPica.Lib.Network
import PicaPica.Lib.Stages
import PicaPica.Node.Network
import PicaPica.Client.Login
import PicaPica.Node.Written
import PicaPica.Client.HonestNode
import PicaPica.Lib.Base64
import PicaPica.Client.Contacts
import PicaPica.Node.TwoEnds
import PicaPica.Lib.Sweep
import PicaPica.Node.Timeouts
import PicaPica.Client.ActiveLink
import PicaPica.Client.Reconnect
import PicaPica.Client.Redial
import PicaPica.Client.BlockedQueue
