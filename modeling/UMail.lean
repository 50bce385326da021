import UMail.Api.Logout
import UMail.Db.Admins
import UMail.Db.Counters
import UMail.Db.Iterate
import UMail.Imap.FetchBody.Theorems
import UMail.Imap.MailboxNames
import UMail.Imap.Rename.Theorems
import UMail.Imap.SeqView.Theorems
import UMail.Imap.UidSet
import UMail.Imap.Wildcard
import UMail.Jmap.MailboxIDs
import UMail.Jmap.QueryChanges
import UMail.Mailstore.BlobSafety.Theorems
import UMail.Mailstore.Freshness
import UMail.Mailstore.Quota.Theorems
import UMail.Mailstore.Searching.Theorems
import UMail.Queue.FailedEnqueue
import UMail.Queue.Lifecycle.Theorems
import UMail.Queue.Limit
import UMail.Queue.Outbound.Theorems
import UMail.Queue.Report.Theorems
import UMail.Queue.SpoolSafety
import UMail.Server.Routing
import UMail.Server.Vacation
import UMail.Auth.MtaSts
import UMail.Smtp.AuthPipeline
import UMail.Smtp.Headers.Theorems
import UMail.Smtp.Scram.Theorems
import UMail.Smtp.Session.Chunks
import UMail.Smtp.Trace.Theorems
import UMail.Storage.UIDValidity
