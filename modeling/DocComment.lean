import DocComment.Main
import DocComment.Proofs.CommentFrame
import DocComment.Proofs.Lines
import DocComment.Proofs.TagLines
import DocComment.Proofs.CommentRoundTrip
import DocComment.Proofs.Glyphs
import DocComment.Proofs.MaskedPath
import DocComment.Proofs.Prototypes
import DocComment.Proofs.PathCut
import DocComment.Proofs.QuotedContents
import DocComment.Proofs.PlainPath
import DocComment.Proofs.WordPaths
import DocComment.Proofs.DocletSteps
import DocComment.Proofs.Resolution
import DocComment.Proofs.Membership
import DocComment.Proofs.NonemptyPaths
import DocComment.Proofs.Spellings
import DocComment.Proofs.StepInvariants
import DocComment.Proofs.SharedLists
import DocComment.Proofs.StandardTags
import DocComment.Proofs.NameInvariants
import DocComment.Proofs.FieldAgreement
import DocComment.Proofs.TagOrder
import DocComment.Proofs.AttemptCourses
import DocComment.Proofs.OperationLog
import DocComment.Proofs.QuotedNames
import DocComment.Proofs.ModuleNames
import DocComment.Proofs.Rereading
import DocComment.Proofs.DictionaryChanges
import DocComment.Proofs.StepCongruence
import DocComment.Proofs.ListedTags
import DocComment.Proofs.CanonicalTitles
import DocComment.Proofs.InferredKind
import DocComment.Proofs.NamespacedPaths
import DocComment.Proofs.FilePlaces
import DocComment.Proofs.LogRouting
import DocComment.Proofs.PrintedDoclets
import DocComment.Proofs.SettingsFaults
import DocComment.Proofs.CleanFailure
import DocComment.Proofs.TagContents
import DocComment.Proofs.LeadingTag
import DocComment.Proofs.Unwrapping
import DocComment.Proofs.Unframed
import DocComment.Proofs.CommonIndent
import DocComment.Proofs.Nesting
import DocComment.Proofs.TypedValues
import DocComment.Proofs.OptionalNames
import DocComment.Proofs.TypeAlternatives
import DocComment.Proofs.NormalPaths
import DocComment.Proofs.ShortenedPaths
import DocComment.Proofs.LoneNames
import DocComment.Proofs.BalancedGroups
import DocComment.Proofs.DictionaryAgreement
import DocComment.Proofs.SettledPaths
import DocComment.Proofs.JoinedPaths
import DocComment.Proofs.UnscopedMembers
