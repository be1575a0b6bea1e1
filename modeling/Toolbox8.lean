import Toolbox8.Base.Transition
import Toolbox8.Base.Sequences
import Toolbox8.Base.Emissions
import Toolbox8.Base.Keyed
import Toolbox8.Base.Words
import Toolbox8.ByteStrings
import Toolbox8.AkkaTerminal
import Toolbox8.AkkaHeaders
import Toolbox8.StreamCoding
import Toolbox8.Multiplex
import Toolbox8.MultiplexDelivery
import Toolbox8.DeepStream
import Toolbox8.Base.Feeding
import Toolbox8.Streams
import Toolbox8.TakeBytesChain
import Toolbox8.LengthPrefixed
import Toolbox8.JarCache
import Toolbox8.StandaloneUpload
import Toolbox8.JarCacheActor
import Toolbox8.JarCacheTransfers
import Toolbox8.JarCacheUploaderRuns
import Toolbox8.PluggableServiceOrder
import Toolbox8.RootStopFirst
import Toolbox8.StreamAppThread
import Toolbox8.JarServletWsEndpoint
import Toolbox8.BufferedTransfer
import Toolbox8.Chunker
import Toolbox8.Base.Groups
import Toolbox8.GroupBytes
import Toolbox8.GroupFirstBytes
import Toolbox8.Base.BigEndian
import Toolbox8.LevelDB
import Toolbox8.LevelDBIds
import Toolbox8.LevelDBTables
import Toolbox8.JarServletJars
import Toolbox8.Base.Strings
import Toolbox8.DBusNames
import Toolbox8.DBReflector
import Toolbox8.DBReflectorRun
import Toolbox8.Base.Visits
import Toolbox8.Base.Joins
import Toolbox8.JsdocUnions
import Toolbox8.ByteStringState
import Toolbox8.DeepStreamEnds
import Toolbox8.JarServletVerdict
import Toolbox8.LevelDBMeta
import Toolbox8.BufferedReceiverOffers
import Toolbox8.JarCacheGet
import Toolbox8.Base.Texts
import Toolbox8.JarFileNames
import Toolbox8.StandalonePromises
import Toolbox8.StreamAppRequest
import Toolbox8.StreamAppHandshake
import Toolbox8.DBusCodeGenerator
import Toolbox8.DBusRef
import Toolbox8.BoopickleSerializer
import Toolbox8.StreamAppMain
import Toolbox8.FilesTools
import Toolbox8.Jillify
import Toolbox8.Base.Declared
import Toolbox8.JsdocClassFiles
import Toolbox8.JsdocJoins
import Toolbox8.Base.Parties
import Toolbox8.StandaloneSessions
import Toolbox8.Base.Refinement
import Toolbox8.ManagementFlow
import Toolbox8.BufferedProgress
import Toolbox8.JarCacheUploads
import Toolbox8.RootRestart
import Toolbox8.LevelDBDatabase
import Toolbox8.ParentLastUrlClassloader
import Toolbox8.StreamAppClients
import Toolbox8.PubSubActor
import Toolbox8.DBusGeneratedFiles
import Toolbox8.Base.Paths
import Toolbox8.JsdocStatics
import Toolbox8.JsdocPaths
import Toolbox8.JsdocReferences
import Toolbox8.AkkaJartreeClientTools
import Toolbox8.AkkaJartreeClientRuns
import Toolbox8.JarCacheUploaderWork
import Toolbox8.PluggableServiceWork
