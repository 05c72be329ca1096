import NotificationService.Foundation.Pool
import NotificationService.Foundation.Transition
import NotificationService.Foundation.Intake
import NotificationService.Foundation.UnitOfWork
import NotificationService.Foundation.ExpiringStore
import NotificationService.Foundation.SortedSet
import NotificationService.Foundation.SlidingWindow
import NotificationService.Foundation.SlidingLog
import NotificationService.Foundation.Json
import NotificationService.Foundation.Pagination
import NotificationService.Foundation.TemplateLanguage
import NotificationService.Service.Models
import NotificationService.Service.Rendering
import NotificationService.Service.MissingVariables
import NotificationService.Service.RateLimiter
import NotificationService.Service.StrictLimit
import NotificationService.Service.Overshoot
import NotificationService.Service.SequentialLimit
import NotificationService.Service.RetryAfter
import NotificationService.Service.Earned
import NotificationService.Service.Simulation
import NotificationService.Worker.Delivery
import NotificationService.Worker.Task
import NotificationService.Worker.System
import NotificationService.Worker.Session
import NotificationService.Worker.SingleSend
import NotificationService.Worker.Absorption
import NotificationService.Worker.AuditTrail
import NotificationService.Worker.Crash
import NotificationService.Worker.Sequential
import NotificationService.Worker.Budget
import NotificationService.Worker.RetryCount
import NotificationService.Worker.Refinement
import NotificationService.Worker.Reconciliation
import NotificationService.Worker.Workload
import NotificationService.Worker.Accounting
import NotificationService.Api.Requests
import NotificationService.Api.Handler
import NotificationService.Api.System
import NotificationService.Api.Agreement
import NotificationService.Api.Ownership
import NotificationService.Api.FailedRequest
import NotificationService.Api.TwoStores
import NotificationService.Api.LockDiscipline
import NotificationService.Api.PayloadConflict
import NotificationService.Api.TargetChannels
import NotificationService.Api.Preferences
import NotificationService.Api.Templates
import NotificationService.Api.Rows
import NotificationService.Api.History
import NotificationService.Api.Enqueued
import NotificationService.Api.Progress
import NotificationService.Api.Lapse
import NotificationService.Api.Status
import NotificationService.Api.Responses
import NotificationService.Api.Errors
import NotificationService.Api.Registry
import NotificationService.Api.Limited
import NotificationService.Api.Admission
import NotificationService.Api.Quota
import NotificationService.Deployment.System
import NotificationService.Deployment.Links
import NotificationService.Deployment.Deliverable
import NotificationService.Deployment.Routing
import NotificationService.Deployment.View
import NotificationService.Deployment.Projection
import NotificationService.Deployment.Content
import NotificationService.Deployment.Recovery
import NotificationService.Deployment.Desertion
import NotificationService.Deployment.Status
import NotificationService.Deployment.History
import NotificationService.Deployment.OptOut
