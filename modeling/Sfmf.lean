import Sfmf.Lib.Exec
import Sfmf.Lib.Bytes
import Sfmf.Lib.Trace
import Sfmf.Spec.Upgrade
import Sfmf.Lib.Stdio
import Sfmf.Proof.Factory
import Sfmf.Spec.Convert
import Sfmf.Proof.Convert
import Sfmf.Spec.FileEntry
import Sfmf.Spec.Pack
import Sfmf.Lib.FileSystem
import Sfmf.Spec.Unpack
import Sfmf.Proof.Layout
import Sfmf.Proof.PackFile
import Sfmf.Proof.Manifest
import Sfmf.Proof.Reflink
import Sfmf.Proof.Download
import Sfmf.Proof.Classify
import Sfmf.Proof.Verified
import Sfmf.Proof.FileEntry
import Sfmf.Proof.Buckets
import Sfmf.Proof.PackRun
import Sfmf.Proof.Lookup
import Sfmf.Proof.Mirror
import Sfmf.Proof.Offline
import Sfmf.Proof.Symlinks
import Sfmf.Proof.RoundTrip
import Sfmf.Proof.Service
import Sfmf.Proof.Deploy
import Sfmf.Proof.Restart
import Sfmf.Proof.StoredOnce
import Sfmf.Proof.Sizes
import Sfmf.Proof.LocalMatch
import Sfmf.Proof.Truncated
import Sfmf.Proof.Cache
import Sfmf.Proof.Inodes
import Sfmf.Proof.Links
import Sfmf.Proof.Metadata
import Sfmf.Lib.FirstFit
import Sfmf.Proof.FirstFit
import Sfmf.Proof.Cutoff
import Sfmf.Lib.NestedStack
import Sfmf.Proof.DirStack
import Sfmf.Proof.Hardlinks
import Sfmf.Proof.LazyHash
import Sfmf.Spec.Zlib
import Sfmf.Proof.Streams
import Sfmf.Lib.Transducer
import Sfmf.Proof.Codec
import Sfmf.Proof.Measured
import Sfmf.Proof.FullBlob
import Sfmf.Lib.Halving
import Sfmf.Proof.CutoffRange
import Sfmf.Lib.Strtol
import Sfmf.Proof.Names
import Sfmf.Proof.Options
import Sfmf.Proof.Analysis
import Sfmf.Lib.Signals
import Sfmf.Spec.Cleanup
import Sfmf.Proof.Cleanup
import Sfmf.Lib.BlockHash
import Sfmf.Lib.Sha1
import Sfmf.Spec.Sha1
import Sfmf.Proof.Sha1
import Sfmf.Spec.HashFile
import Sfmf.Proof.HashFile
import Sfmf.Spec.Control
import Sfmf.Spec.Session
import Sfmf.Proof.Session
import Sfmf.Proof.Interrupted
import Sfmf.Proof.Progress
import Sfmf.Spec.UpgradeBus
import Sfmf.Proof.UpgradeBus
import Sfmf.Proof.Bystanders
import Sfmf.Proof.Routes
import Sfmf.Proof.Reproducible
import Sfmf.Lib.Budget
import Sfmf.Proof.Budget
import Sfmf.Proof.PackReturns
import Sfmf.Lib.Confined
import Sfmf.Proof.Frame
import Sfmf.Proof.EndToEnd
import Sfmf.Proof.Dump
