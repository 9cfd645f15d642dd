import GardenLinux.Lib.Reach
import GardenLinux.Lib.EagerWalk
import GardenLinux.Lib.Paths
import GardenLinux.Lib.PostOrder
import GardenLinux.Lib.DirectPaths
import GardenLinux.Feat.FeatureSet
import GardenLinux.Feat.Postorder
import GardenLinux.Feat.Expand
import GardenLinux.Feat.LoopDetection
import GardenLinux.Feat.Reduce
import GardenLinux.Feat.Cname
import GardenLinux.Glci.Model
import GardenLinux.Glci.Agreement
import GardenLinux.Glci.Bucket
import GardenLinux.Glci.ManifestKey
import GardenLinux.Glci.Steps
import GardenLinux.Lib.SharedCell
import GardenLinux.Lib.Text
import GardenLinux.Lib.TextFilter
import GardenLinux.Lib.Calendar
import GardenLinux.Lib.PyData
import GardenLinux.Lib.FromDict
import GardenLinux.Lib.Paging
import GardenLinux.Lib.Bash
import GardenLinux.Lib.BashScript
import GardenLinux.Glci.LostUpdate
import GardenLinux.Glci.Clean
import GardenLinux.Glci.UploadResults
import GardenLinux.Glci.OwnKey
import GardenLinux.Glci.Collect
import GardenLinux.Glci.Unregister
import GardenLinux.Glci.AzureTransport
import GardenLinux.Glci.Staging
import GardenLinux.Glci.Publications
import GardenLinux.Glci.Flavours
import GardenLinux.Glci.Pipeline
import GardenLinux.Glci.ReleaseSets
import GardenLinux.Glci.FindReleaseSet
import GardenLinux.Glci.Epoch
import GardenLinux.Glci.Manifests
import GardenLinux.Glci.ManifestFields
import GardenLinux.Glci.RoundTrip
import GardenLinux.Glci.AzurePolling
import GardenLinux.Glci.AzureUrn
import GardenLinux.Glci.Paging
import GardenLinux.Feat.ReadFeatures
import GardenLinux.Feat.ShellVars
import GardenLinux.Feat.ShellEncoding
import GardenLinux.Feat.Exclusion
import GardenLinux.Feat.CnameIdentifies
import GardenLinux.Init.Filters
import GardenLinux.Init.PackageList
import GardenLinux.Glci.VersionFile
import GardenLinux.Lib.Stream
import GardenLinux.Glci.Oci
import GardenLinux.Glci.OciTags
import GardenLinux.Lib.Double
import GardenLinux.Build.PartitionSizes
import GardenLinux.Lib.FileTree
import GardenLinux.Build.Makepart
import GardenLinux.Build.Fstab
import GardenLinux.Build.Partitions
import GardenLinux.Glci.Logs
import GardenLinux.Build.FeatureTests
import GardenLinux.Lib.Unpack
import GardenLinux.Lib.OsPath
import GardenLinux.Glci.S3
import GardenLinux.Glci.Expands
import GardenLinux.Glci.SameKey
import GardenLinux.Glci.NextRelease
import GardenLinux.Glci.PrintedVersion
import GardenLinux.Build.MakeEc2Ami
import GardenLinux.Lib.RawFile
import GardenLinux.Build.Shrink
import GardenLinux.Lib.Template
import GardenLinux.Lib.PyCall
import GardenLinux.Lib.Command
import GardenLinux.Lib.Schedule
import GardenLinux.Lib.JsonObject
import GardenLinux.Tkn.Params
import GardenLinux.Tkn.Steps
import GardenLinux.Tkn.Calls
import GardenLinux.Tkn.Tasks
import GardenLinux.Tkn.Runs
import GardenLinux.Tkn.Render
import GardenLinux.Tkn.Delivery
import GardenLinux.Tkn.Status
import GardenLinux.Tkn.Jobs
import GardenLinux.Tkn.MainRun
import GardenLinux.Tkn.PackagesRun
import GardenLinux.Tkn.PipelineRun
import GardenLinux.Tkn.RenderAll
import GardenLinux.Tkn.Order
import GardenLinux.Tkn.Signatures
import GardenLinux.Tkn.Notify
import GardenLinux.Tkn.Targets
