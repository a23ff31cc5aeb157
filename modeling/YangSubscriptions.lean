import YangSubscriptions.Restconf.Server
import YangSubscriptions.Proofs.Filter.Subtree
import YangSubscriptions.Proofs.Filter.Meaning
import YangSubscriptions.Proofs.Filter.Reported
import YangSubscriptions.Proofs.Subscription.Usage
import YangSubscriptions.Proofs.Delivery.FanOut
import YangSubscriptions.Proofs.Delivery.Emission
import YangSubscriptions.Proofs.Delivery.Handover
import YangSubscriptions.Proofs.Service.Agreement
import YangSubscriptions.Proofs.Service.Isolation
import YangSubscriptions.Proofs.Service.Lifecycle
import YangSubscriptions.Proofs.Service.Ending
import YangSubscriptions.Proofs.Service.Rollback
import YangSubscriptions.Proofs.Service.Refusal
import YangSubscriptions.Proofs.Service.Revalidation
import YangSubscriptions.Proofs.Service.Accounting
import YangSubscriptions.Proofs.Service.Noninterference
import YangSubscriptions.Proofs.Restconf.Connections
import YangSubscriptions.Proofs.Data.Unordered
import YangSubscriptions.Proofs.Rpc.Requests
import YangSubscriptions.Proofs.Data.Xml
import YangSubscriptions.Proofs.Filter.Pruning
import YangSubscriptions.Proofs.Filter.Inheritance
import YangSubscriptions.Proofs.Service.Flags
import YangSubscriptions.Proofs.Service.Forgetting
import YangSubscriptions.Proofs.Service.Replays
import YangSubscriptions.Proofs.Filter.Validation
import YangSubscriptions.Proofs.Filter.Strict
import YangSubscriptions.Proofs.Xml.Spelling
import YangSubscriptions.Proofs.Service.ReplayStart
import YangSubscriptions.Proofs.Notification.Terms
import YangSubscriptions.Proofs.Xml.Tokens
import YangSubscriptions.Proofs.Xml.Document
import YangSubscriptions.Proofs.Config.Server
import YangSubscriptions.Proofs.Restconf.Filters
