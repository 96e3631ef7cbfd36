import NostrMash.CountSerialization
import NostrMash.AccountFreshness
import NostrMash.AccountFairness
import NostrMash.NotificationPaging
import NostrMash.FeedWindow
import NostrMash.BackfillCoverage
import NostrMash.FailedInserts
import NostrMash.WellTyped
import NostrMash.Nip01
import NostrMash.DedupPath
import NostrMash.IngestInvariants
import NostrMash.TrustSnapshots
import NostrMash.UnfinishedRuns
import NostrMash.DiscoveryAgreement
import NostrMash.ThreadResolution
import NostrMash.JobStates
import NostrMash.JobFencing
import NostrMash.PublishedEvents
import NostrMash.ReplaceableOrder
import NostrMash.BookmarkFollowing
import NostrMash.FrontierRecovery
import NostrMash.RecomputeRuns
import NostrMash.MeilisearchDrain
import NostrMash.LatestPaging
import NostrMash.PersonalizedRanking
import NostrMash.ShadowMode
import NostrMash.TrustedAuthorSet
import NostrMash.PrimalTrending
import NostrMash.TrendingPages
import NostrMash.ContactRetention
import NostrMash.ArticleCounts
import NostrMash.DirectMessageCounts
import NostrMash.PurgeCompleteness
import NostrMash.PolicyRelease
import NostrMash.ObservationDelivery
import NostrMash.CrawlProvenance
import NostrMash.FollowFarm
import NostrMash.ThreadWindows
import NostrMash.LongFormPaging
import NostrMash.KeysetRebuild
import NostrMash.FirstSightings
import NostrMash.BackfillProgress
import NostrMash.BackfillRestart
import NostrMash.DeletionLedger
import NostrMash.RebuildRuns
import NostrMash.PublicCacheRuns
import NostrMash.RateLimiter
import NostrMash.PrimalSession
import NostrMash.ZapAmounts
import NostrMash.ReplyOrder
import NostrMash.NearDuplicates
import NostrMash.AddressLookup
import NostrMash.FollowerPaging
