import Ingress.LoadBalancer.Graph
import Ingress.HealthCheck.TcpProbe
import Ingress.Tcp.WrrLoadBalancer
import Ingress.Tcp.Router
import Ingress.Tcp.InFlightConn
import Ingress.Service.Http
import Ingress.Service.TcpHealth
import Ingress.Muxer.Routing
import Ingress.Tcp.HostSni
import Ingress.Aggregator.RingChannel
import Ingress.Middleware.Compress
import Ingress.Server.ConfigurationWatcher
import Ingress.Server.EntryPointModels
import Ingress.Proxy.ConnPool
import Ingress.Proxy.Connection
import Ingress.Proxy.RoundTrip
import Ingress.Middleware.ForwardAuth
import Ingress.Middleware.ConcurrentAllow
import Ingress.Server.ChildRouters
import Ingress.Provider.Merge
import Ingress.Tls.CertificateStore
import Ingress.Udp.Delivery
import Ingress.Muxer.RoutingPath
import Ingress.LoadBalancer.Mirror
import Ingress.Middleware.IpStrategy
import Ingress.Provider.AcmeStore
import Ingress.Middleware.RetryAnswer
import Ingress.Middleware.RetryStatus
import Ingress.LoadBalancer.WrrFairness
import Ingress.Middleware.PathRewrite
import Ingress.Proxy.Forwarding
import Ingress.Gateway.TlsRoute
import Ingress.Provider.KubernetesIngress
import Ingress.LoadBalancer.Hrw
import Ingress.LoadBalancer.ReusableRequest
import Ingress.LoadBalancer.LeastTime
