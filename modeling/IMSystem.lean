import IMSystem.Logic.MessageProcessor
import IMSystem.Message.Pulling
import IMSystem.Message.Sync
import IMSystem.User.Sessions
import IMSystem.Rpc.Delivery
import IMSystem.Gateway.TcpConnection
import IMSystem.Common.ConfigFlattening
import IMSystem.Gateway.GatewayServer
import IMSystem.Gateway.ReplyStream
import IMSystem.Rpc.Acknowledgement
import IMSystem.Common.MysqlPool
import IMSystem.Common.PoolInit
import IMSystem.Common.RabbitMQClient
import IMSystem.Message.DeliveryOrder
import IMSystem.Lib.Interleave
import IMSystem.User.UserDao
import IMSystem.User.Registration
import IMSystem.Lib.SelfSync
import IMSystem.Logic.FilteredText
import IMSystem.Message.Paging
import IMSystem.Dao.RetriedReads
import IMSystem.Gateway.Heartbeat
import IMSystem.Common.ConfigList
import IMSystem.Common.ConfigQuoting
import IMSystem.Common.ConfigLayout
import IMSystem.User.FailedRegistration
import IMSystem.Common.StringUtils
import IMSystem.Common.MongoUri
import IMSystem.Common.RetryBound
import IMSystem.Common.Json
import IMSystem.Push.PushManager
import IMSystem.Admin.ApiHandler
import IMSystem.Admin.AdminServer
import IMSystem.User.FriendPages
import IMSystem.Dao.RetriedWrites
import IMSystem.User.FriendService
import IMSystem.Common.PoolProgress
import IMSystem.Gateway.Lifecycle
import IMSystem.Gateway.Timeout
import IMSystem.Message.Mailbox
import IMSystem.User.Login
import IMSystem.Rpc.Amplification
import IMSystem.User.TokenFaults
import IMSystem.User.FriendGraph
import IMSystem.Logic.ConfiguredFilter
import IMSystem.Rpc.StoredContent
import IMSystem.Push.Consuming
import IMSystem.Lib.HttpMessage
import IMSystem.Admin.Responses
import IMSystem.Gateway.Degradation
import IMSystem.Rpc.ReadBack
import IMSystem.Common.ConfigValues
import IMSystem.Gateway.HealthCheck
