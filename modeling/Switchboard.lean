import Switchboard.Config.Overrides
import Switchboard.Config.Shown
import Switchboard.Exchange.Site
import Switchboard.Exchange.Start
import Switchboard.Web.Routes
import Switchboard.Proofs.Envelope.TextFrame
import Switchboard.Proofs.Fragment.Independence
import Switchboard.Proofs.Membership.Filling
import Switchboard.Proofs.Membership.Load
import Switchboard.Proofs.Membership.News
import Switchboard.Proofs.Routing.Broker
import Switchboard.Proofs.Routing.Order
import Switchboard.Proofs.Routing.Accounting
import Switchboard.Proofs.Routing.Assistant
import Switchboard.Proofs.Routing.Legible
import Switchboard.Proofs.Routing.Fragments
import Switchboard.Proofs.Routing.Cutting
import Switchboard.Proofs.Fragment.Refusal
import Switchboard.Proofs.Fragment.Expiry
import Switchboard.Proofs.Service.Unread
import Switchboard.Proofs.Config.Overrides
import Switchboard.Proofs.Queue
import Switchboard.Proofs.Routing.Reader
import Switchboard.Proofs.Registry
import Switchboard.Proofs.Envelope.Shortage
