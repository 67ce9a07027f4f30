import Celeries.Errors
import Celeries.Js.Text
import Celeries.Js.Value
import Celeries.Js.RegExp
import Celeries.Js.Language
import Celeries.Js.Decimal
import Celeries.Utility.Parse
import Celeries.Utility.Timeout
import Celeries.QueryParser
import Celeries.Url.Basic
import Celeries.Url.SearchParams
import Celeries.Url.Run
import Celeries.Url.Authority
import Celeries.Url.Query
import Celeries.Uri.Authority
import Celeries.Uri.Parse
import Celeries.Uri.Query
import Celeries.Uri.Host
import Celeries.Uri.QueryForm
import Celeries.Amqp.Uri
import Celeries.Redis.Uri
import Celeries.Redis.Path
import Celeries.Redis.Options
import Celeries.Redis.Roundtrip
import Celeries.Failures
import Celeries.Containers.PromiseMap
import Celeries.Containers.ResourcePool
import Celeries.Amqp.Backend
import Celeries.Amqp.Channel
import Celeries.Amqp.Broker
import Celeries.Amqp.Replies
import Celeries.Amqp.Vhost
import Celeries.Amqp.Query
