import Hypershunt.Auth.Htpasswd
import Hypershunt.Auth.Subrequest
import Hypershunt.Cache.Background
import Hypershunt.Cache.Buffering
import Hypershunt.Cache.Cacheability
import Hypershunt.Cache.Directives
import Hypershunt.Cache.Discard
import Hypershunt.Cache.Freshness
import Hypershunt.Cache.Location
import Hypershunt.Cache.Methods
import Hypershunt.Cache.Overflow
import Hypershunt.Cache.Refresh
import Hypershunt.Cache.Sweep
import Hypershunt.Cert.CertDir
import Hypershunt.Cert.Challenges
import Hypershunt.Cgi.Response
import Hypershunt.Cgi.Scgi
import Hypershunt.Cgi.Script
import Hypershunt.Fcgi.Request
import Hypershunt.Fcgi.Response
import Hypershunt.Handler.Conditional
import Hypershunt.Handler.Containment
import Hypershunt.Handler.FileBody
import Hypershunt.Handler.ForwardingChain
import Hypershunt.Handler.H3Upgrade
import Hypershunt.Handler.HeaderOrigin
import Hypershunt.Handler.Retry
import Hypershunt.Http.Recoding
import Hypershunt.Jwt.CookieLines
import Hypershunt.Lb.Ejection
import Hypershunt.Lb.Fallback
import Hypershunt.Listener.ActiveGauge
import Hypershunt.Listener.BodyCap
import Hypershunt.Listener.DatagramSockets
import Hypershunt.Listener.HostAgreement
import Hypershunt.Listener.PendingCookies
import Hypershunt.Log.Calendar
import Hypershunt.Metrics.Archive
import Hypershunt.Metrics.Paths
import Hypershunt.Oidc.Bearer
import Hypershunt.Oidc.IatWindow
import Hypershunt.Oidc.LogoutReplay
import Hypershunt.Oidc.RefreshToken
import Hypershunt.Oidc.Resurrection
import Hypershunt.Oidc.ReturnPath
import Hypershunt.RateLimit.Bound
import Hypershunt.RateLimit.PerUser
import Hypershunt.RateLimit.RetryAfter
import Hypershunt.Reload.Listeners
import Hypershunt.Reload.Renewals
import Hypershunt.Router.Choice
import Hypershunt.Router.CountryUse
import Hypershunt.Vars.Frozen
import Hypershunt.Vars.Lossless
import Hypershunt.WebSocket.Translate
