import ReleaseNotes.Main
import ReleaseNotes.Proofs.AddressSlashes
import ReleaseNotes.Proofs.CountedLines
import ReleaseNotes.Proofs.GivenLimit
import ReleaseNotes.Proofs.IdleArguments
import ReleaseNotes.Proofs.InertArguments
import ReleaseNotes.Proofs.JoinedLogs
import ReleaseNotes.Proofs.LimitArguments
import ReleaseNotes.Proofs.LineShapes
import ReleaseNotes.Proofs.LinkedTitles
import ReleaseNotes.Proofs.LogRevision
import ReleaseNotes.Proofs.ReleaseRanges
import ReleaseNotes.Proofs.RenderedLines
import ReleaseNotes.Proofs.RepeatedOptions
import ReleaseNotes.Proofs.TidyTitles
import ReleaseNotes.Proofs.TypedCounts
import ReleaseNotes.Proofs.TypedOccurrences
import ReleaseNotes.Proofs.UnusedOptions
