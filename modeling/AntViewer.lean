import AntViewer.Library.Runs
import AntViewer.Library.Tally
import AntViewer.Percentages
import AntViewer.Firestore.Database
import AntViewer.FirePoll
import AntViewer.BatchCompletion
import AntViewer.FailedFetch
import AntViewer.FeedFlags
import AntViewer.ReadBack
import AntViewer.VoteTally
import AntViewer.DisplayedPercentages
import AntViewer.PercentageAccuracy
import AntViewer.PercentageOrder
import AntViewer.PercentageTraps
import AntViewer.Firestore.Document
import AntViewer.Firestore.QueryBuilder
import AntViewer.Firestore.SyncEngine
import AntViewer.Firestore.QueryEngine
import AntViewer.Firestore.QueryTarget
import AntViewer.Firestore.StoreChanges
import AntViewer.Firestore.LocalClient
import AntViewer.Firestore.FreshView
import AntViewer.Firestore.LocalEngine
import AntViewer.ChatFeed
import AntViewer.Firestore.ObjectValue
import AntViewer.Firestore.MutationQueue
import AntViewer.Firestore.PendingWrites
