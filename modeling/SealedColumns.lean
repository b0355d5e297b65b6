import SealedColumns.Reader.OpenFile
import SealedColumns.Writer.FileWriter
import SealedColumns.Proofs.RoundTrip
import SealedColumns.Proofs.SealLog
import SealedColumns.Proofs.AcceptedFooters
import SealedColumns.Proofs.FileLayout
import SealedColumns.Proofs.GivenUpFiles
import SealedColumns.Proofs.WireExtent
import SealedColumns.Proofs.ReadRequests
import SealedColumns.Proofs.ByteSizes
import SealedColumns.Proofs.KeylessReading
import SealedColumns.Proofs.RelatedOpening
import SealedColumns.Proofs.RelatedRuns
import SealedColumns.Proofs.BroughtKeys
import SealedColumns.Proofs.IndependentReads
import SealedColumns.Proofs.ClosedFiles
import SealedColumns.Proofs.PublicLayout
import SealedColumns.Proofs.FooterWindow
import SealedColumns.Proofs.OpeningCalls
import SealedColumns.Proofs.FooterLifecycle
import SealedColumns.Proofs.ExactOpening
import SealedColumns.Proofs.ChangedBytes
import SealedColumns.Proofs.AssociatedData
import SealedColumns.Proofs.PrefixAgreement
import SealedColumns.Proofs.PlainDecoding
import SealedColumns.Proofs.LosslessDictionary
import SealedColumns.Proofs.PrefixStorage
import SealedColumns.Proofs.ColumnLengths
import SealedColumns.Proofs.ByteSources
import SealedColumns.Proofs.WriterVersions
import SealedColumns.Proofs.PagedColumns
import SealedColumns.Proofs.PaddedChunks
import SealedColumns.Proofs.ModuleStreams
import SealedColumns.Proofs.PageProgress
import SealedColumns.Proofs.ColumnKeys
import SealedColumns.Proofs.KeyConfiguration
import SealedColumns.Proofs.AcceptedBytes
