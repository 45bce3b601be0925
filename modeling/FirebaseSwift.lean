import FirebaseSwift.Database.RestoreWrites
import FirebaseSwift.Database.TreeMaps
import FirebaseSwift.Database.WriteOrder
import FirebaseSwift.Database.OperationsBelow
import FirebaseSwift.Database.RangeMergeLeaves
import FirebaseSwift.Database.ServerValue
import FirebaseSwift.Database.ResolvedValues
import FirebaseSwift.Database.RememberedWrites
import FirebaseSwift.Database.CompoundHashes
import FirebaseSwift.Database.NumberOrder
import FirebaseSwift.Database.IndexedViewRuns
import FirebaseSwift.Database.IncrementalFilters
import FirebaseSwift.Database.ListenBookkeeping
import FirebaseSwift.Database.ServerAgreement
import FirebaseSwift.Database.StoredTrackedQueries
import FirebaseSwift.Database.PruneChecks
import FirebaseSwift.Database.PruneRounds
import FirebaseSwift.Database.UpdatePathChecks
import FirebaseSwift.Database.PushIds
import FirebaseSwift.Database.RetryRuns
import FirebaseSwift.Database.ConnectionReports
import FirebaseSwift.Database.OutstandingGets
import FirebaseSwift.Database.PutAnswers
import FirebaseSwift.Auth.LostUpdates
import FirebaseSwift.Auth.SessionRuns
import FirebaseSwift.Auth.StoredUserRuns
import FirebaseSwift.Auth.TokenRequestRuns
import FirebaseSwift.Auth.AutoRefreshRuns
import FirebaseSwift.Auth.UserAccessGroups
import FirebaseSwift.Auth.KeychainServices
import FirebaseSwift.Auth.APNSTokens
import FirebaseSwift.Auth.AppCredentials
import FirebaseSwift.Auth.LinkQueries
import FirebaseSwift.AppCheck.TokenTasks
import FirebaseSwift.Firestore.AuthCredentialRuns
import FirebaseSwift.Firestore.ConvertedValues
import FirebaseSwift.Firestore.UpdateOrders
import FirebaseSwift.Firestore.ByteStreams
import FirebaseSwift.Functions.SerializerRoundTrip
import FirebaseSwift.Storage.TaskOutcomes
import FirebaseSwift.Storage.StoragePaths
import FirebaseSwift.Storage.UploadChunks
import FirebaseSwift.Storage.DownloadLimits
import FirebaseSwift.Shared.ChunkedLines
